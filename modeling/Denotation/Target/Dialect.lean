import Denotation.Simple.Printing
import Denotation.Target.Basic

/-!
# Dialects

What rendering needs to know of a target language: how it writes closures, calls, literals, operators,
environments, conditions and loops. Arguments and results are source text of the target, and every
closure takes the environment as the parameter `param`.
-/

namespace Denotation

/-- How a target language writes the parts of a denotation. -/
structure Dialect where
  /-- The extension of files in the language, dot included. -/
  extension : Text
  /-- The name of the environment parameter. -/
  param : Text
  /-- A closure of the parameter with the given body. -/
  function : Text → Text
  /-- A closure called with one argument. -/
  apply : Text → Text → Text
  /-- A literal integer. -/
  integer : Int64 → Text
  /-- A literal truth value. -/
  boolean : Bool → Text
  /-- A sum. -/
  add : Text → Text → Text
  /-- A product. -/
  multiply : Text → Text → Text
  /-- A comparison. -/
  lessThan : Text → Text → Text
  /-- The value of a variable in an environment. -/
  lookup : Text → Text → Text
  /-- A copy of an environment with one variable bound to a value. -/
  replace : Text → Text → Text → Text
  /-- A closure that picks one of two branches; all three texts mention the parameter. -/
  conditional : Text → Text → Text → Text
  /-- A closure that replaces its environment by the body while the condition holds; both texts
  mention the parameter. -/
  loop : Text → Text → Text

namespace Dialect

/-- Clojure: a loop calls itself in tail position. -/
def clojure : Dialect where
  extension := ".clj"
  param := "e"
  function body := Text.concat ["(fn [e] ", body, ")"]
  apply fn arg := Text.concat ["(", fn, " ", arg, ")"]
  integer := Text.ofInt64
  boolean := boolText
  add l r := Text.concat ["(+ ", l, " ", r, ")"]
  multiply l r := Text.concat ["(* ", l, " ", r, ")"]
  lessThan l r := Text.concat ["(< ", l, " ", r, ")"]
  lookup env name := Text.concat ["(get ", env, " ", name.quote, ")"]
  replace env name value := Text.concat ["(assoc ", env, " ", name.quote, " ", value, ")"]
  conditional c a b := Text.concat ["(fn [e] (if ", c, " ", a, " ", b, "))"]
  loop c body := Text.concat ["(fn [e] (if ", c, " (recur ", body, ") e))"]

/-- JavaScript: a loop assigns to its parameter. -/
def javascript : Dialect where
  extension := ".js"
  param := "e"
  function body := Text.concat ["function (e) \x7b return ", body, "; \x7d"]
  apply fn arg := Text.concat [fn, "(", arg, ")"]
  integer := Text.ofInt64
  boolean := boolText
  add l r := Text.concat ["(", l, ") + (", r, ")"]
  multiply l r := Text.concat ["(", l, ") * (", r, ")"]
  lessThan l r := Text.concat ["(", l, ") < (", r, ")"]
  lookup env name := Text.concat [env, "[", name.quote, "]"]
  replace env name value :=
    Text.concat ["Object.assign(\x7b\x7d, ", env, ", \x7b ", name.quote, ": ", value, " \x7d)"]
  conditional c a b :=
    Text.concat ["function (e) \x7b if (", c, ") \x7b return (", a, "); \x7d else \x7b return (", b,
      "); \x7d \x7d"]
  loop c body :=
    Text.concat ["function (e) \x7b while (", c, ") \x7b e = ", body, "; \x7d return e; \x7d"]

/-- Python, where a loop is the first of the successive environments that fails the condition. -/
def python : Dialect where
  extension := ".py"
  param := "e"
  function body := "lambda e: " ++ body
  apply fn arg := Text.concat ["(", fn, ")(", arg, ")"]
  integer := Text.ofInt64
  boolean b := if b then "True" else "False"
  add l r := l ++ " + " ++ r
  multiply l r := l ++ " * " ++ r
  lessThan l r := l ++ " < " ++ r
  lookup env name := Text.concat [env, "[", name.quote, "]"]
  replace env name value := Text.concat ["\x7b**", env, ", ", name.quote, ": ", value, "\x7d"]
  conditional c a b := Text.concat ["lambda e: ", a, " if ", c, " else ", b]
  loop c body :=
    Text.concat ["lambda e: next(e for e in __import__(\"itertools\").accumulate(",
      "__import__(\"itertools\").repeat(None), lambda e, _: ", body, ", initial=e) if not ", c, ")"]

/-- Ruby: a loop assigns to its parameter. -/
def ruby : Dialect where
  extension := ".rb"
  param := "e"
  function body := Text.concat ["-> e \x7b ", body, " \x7d"]
  apply fn arg := Text.concat ["(", fn, ").call(", arg, ")"]
  integer := Text.ofInt64
  boolean := boolText
  add l r := l ++ " + " ++ r
  multiply l r := l ++ " * " ++ r
  lessThan l r := l ++ " < " ++ r
  lookup env name := Text.concat [env, "[", name.quote, "]"]
  replace env name value := Text.concat [env, ".merge(\x7b ", name.quote, " => ", value, " \x7d)"]
  conditional c a b := Text.concat ["-> e \x7b if ", c, " then ", a, " else ", b, " end \x7d"]
  loop c body := Text.concat ["-> e \x7b while ", c, "; e = ", body, "; end; e \x7d"]

end Dialect

/-- The dialect of a target. -/
def Target.dialect : Target → Dialect
  | .clojure => .clojure
  | .javascript => .javascript
  | .python => .python
  | .ruby => .ruby

end Denotation
