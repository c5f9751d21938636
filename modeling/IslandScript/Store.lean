import IslandScript.Console
import IslandScript.Value.Table

/-!
# The store

What natives may change: the tables of lists, texts that grow, and the console.
-/

namespace IslandScript

/-- Tables, growing texts and the console. -/
structure Store where
  tables : Tables
  buffers : Array String
  console : Console

namespace Store

/-- A store without tables and texts. -/
def new (console : Console) : Store := ⟨#[], #[], console⟩

instance : Inhabited Store := ⟨new default⟩

/-- Makes a list of elements: the list, and the store with it. -/
def newList (s : Store) (items : List Value) : Value × Store :=
  let (t, tables) := s.tables.alloc items
  (.list t, { s with tables := tables })

/-- Makes an empty text: its place, and the store with it. -/
def newBuffer (s : Store) : BufferId × Store :=
  (⟨s.buffers.size⟩, { s with buffers := s.buffers.push "" })

/-- The text at a place. -/
def buffer (s : Store) (b : BufferId) : String := (s.buffers[b.index]?).getD ""

/-- Adds to the text at a place. -/
def append (s : Store) (b : BufferId) (text : String) : Store :=
  { s with buffers := s.buffers.modify b.index (· ++ text) }

/-- Changes the table at a place. -/
def update (s : Store) (t : TableId) (f : Table → Table) : Store :=
  { s with tables := s.tables.update t f }

/-- Changes the console. -/
def onConsole (s : Store) (f : Console → Console) : Store :=
  { s with console := f s.console }

end Store
end IslandScript
