import Wordstream.Eval.Engine

/-!
# Booting

A machine is booted by defining the procedures that wrap functions, the core library, and, in a
script, the words that programs use.
-/

namespace Wordstream

/-- The script that names the words of the language. -/
def bootScript : String := "
add: native [x y] :core/add
sub: native [x y] :core/sub
mul: native [x y] :core/mul
gt: native [x y] :core/gt
eq: native [x y] :core/eq

+: native-infix [x y] :core/add
-: native-infix [x y] :core/sub
*: native-infix [x y] :core/mul
>: native-infix [x y] :core/gt
=: native-infix [x y] :core/eq

either: native [cond if-true if-false] :core/either
proc: native [params body] :core/proc
fn: native [params body] :core/fn
module: native [desc body] :core/module
throw: native [message] :core/throw
print: native [value] :core/print

write: proc [value /out] [out value]
passthrough: proc [/in /out] [out in]
"

/-- The procedures that boot defines itself, under their names. -/
def bootActions : List (String × Action) :=
  [("native", .defineNative), ("native-infix", .defineOperator), ("native-async", .defineAsync),
    ("pipe", .pipe)]

/-- Define the procedures that wrap functions, and the core library. -/
def installLibrary (m : Machine) : Machine :=
  let m := bootActions.foldl (fun m (name, action) =>
    let (value, m) := m.newLeading action
    m.define name value) m
  let (core, m) := coreTable m
  let (ref, m) := m.newDictionary core
  m.define "core" (.object ref)

/-- Boot a machine. -/
def boot (engine : Engine) : Run Machine Unit := do
  modify installLibrary
  let _ ← evaluate engine bootScript

end Wordstream
