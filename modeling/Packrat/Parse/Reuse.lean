import Packrat.Parse.Round
import Packrat.Text.Edit

/-!
# Parsing again

After an edit, results that depend only on text the edit left alone still hold: those that looked
at nothing behind its start hold as they are, and those that begin behind the removed text hold
with their positions moved. A result that begins right at the end of the removed text may have
looked at the character before it, and is dropped with all others.
-/

namespace Packrat

/-- A position behind the removed text of an edit, after the edit. -/
def Edit.move (e : Edit) (position : Nat) : Nat := position + e.insertedSize - e.removed

/-- An error behind the removed text, after the edit. -/
def SyntaxError.moved (edit : Edit) (e : SyntaxError) : SyntaxError :=
  { e with start := edit.move e.start, stop := edit.move e.stop }

/-- A result behind the removed text, after the edit. -/
def Entry.moved (edit : Edit) (entry : Entry) : Entry where
  taken := entry.taken.map fun t =>
    ⟨edit.move t.stop, t.trees, t.errors.map (SyntaxError.moved edit)⟩
  reach := edit.move entry.reach
  far := entry.far.map fun f => ⟨edit.move f.position, f.expected⟩
  frontier := entry.frontier.map edit.move

namespace Edit

/-- What becomes of a result. -/
def carry? (edit : Edit) (key : MemoKey) (entry : Entry) : Option (MemoKey × Entry) :=
  if entry.reach ≤ edit.start then some (key, entry)
  else if edit.start + edit.removed < key.2 then
    some ((key.1, edit.move key.2), entry.moved edit)
  else none

/-- The results that still hold after the edit. -/
def carryOver (edit : Edit) (old : Results) : Results :=
  old.fold (fun new key entry =>
    match edit.carry? key entry with
    | some (key, entry) => new.insert key entry
    | none => new) {}

end Edit

/-- Parses the text of an earlier result with an edit applied. Results of rules are used again if
the earlier program had the same fingerprint. -/
def Program.reparse (p : Program) (o : ParseOptions) (old : Parsed) (edit : Edit) :
    Except EditError Parsed := do
  let text ← edit.apply (Text.ofString old.text)
  let known := if old.fingerprint = p.fingerprint then edit.carryOver old.results else {}
  return p.parseWith o known false (Text.ofString text)

end Packrat
