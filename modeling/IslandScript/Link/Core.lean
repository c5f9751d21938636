import IslandScript.Link.Core.Builder
import IslandScript.Link.Core.Globals
import IslandScript.Link.Core.Primitives
import IslandScript.Link.Linker

/-!
# The core link

The link that is imported before any program runs: the console, time, ranges, the classes that
wrap primitives, and builders.
-/

namespace IslandScript.Core

/-- The name of the core link. -/
def name : String := "core"

/-- The lines of the prelude. -/
def preludeLines : List String :=
  ["// Prelude of the core link. Every `@` declaration binds to a native.",
   "",
   "fun @print(x)",
   "fun @println(x = \"\")",
   "fun @read()",
   "fun @readln()",
   "fun @time()",
   "fun @wait(seconds)",
   "fun @range(start, end, step = 1)",
   "fun @str(x)",
   "",
   "class Any \x7b",
   "    fun @className()",
   "\x7d",
   "",
   "class Boolean : Any() \x7b",
   "    fun @not()",
   "    fun @both(that)",
   "    fun @either(that)",
   "    fun @xor(that)",
   "    fun @toNumber()",
   "    fun @toString()",
   "\x7d",
   "",
   "class Number : Any() \x7b",
   "    fun @add(that)",
   "    fun @sub(that)",
   "    fun @mul(that)",
   "    fun @div(that)",
   "    fun @floor()",
   "    fun @toString()",
   "\x7d",
   "",
   "class String : Any() \x7b",
   "    fun @size()",
   "    fun @get(index)",
   "    fun @upper()",
   "    fun @lower()",
   "    fun @contains(that)",
   "    fun @split(separator)",
   "    fun @format(*args)",
   "\x7d",
   "",
   "class List : Any() \x7b",
   "    fun @size()",
   "    fun @push(value)",
   "    fun @pop()",
   "    fun @get(index)",
   "    fun @set(index, value)",
   "    fun @contains(value)",
   "    fun @join(separator = \"\")",
   "\x7d",
   "",
   "class @Builder : Any() \x7b",
   "    fun @append(value)",
   "    fun @build()",
   "\x7d"]

/-- The prelude, each of its lines ended by a newline. -/
def prelude : Source := ⟨name, String.join (preludeLines.map (· ++ "\n"))⟩

/-- The core link. -/
def link : Link :=
  { name := name
    prelude := prelude
    functions := globals ++ primitives ++ builderFunctions
    classes := builderClasses }

end IslandScript.Core

namespace IslandScript

/-- A linker that offers the core link. -/
def Linker.new : Linker := { Linker.empty with available := [Core.link] }

end IslandScript
