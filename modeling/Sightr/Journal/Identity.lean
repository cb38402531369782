import Sightr.Journal.Codex
import Sightr.Journal.Cursor
import Sightr.Journal.Grok

/-!
# Row identity across windows

The ingest reads a log in windows and writes items under ids made of the entries' ids. What that asks of the
adapters that number their ids: a row has one id whichever line the parse began at, and no other row has it.
-/

namespace Sightr

/-- Row ids do not depend on the window, and are one row's, exactly when: the hashes of Grok's rows are apart;
the hashes of Cursor's rows without ids are; the rows of a Codex log that show something have different keys.
The windows are all parts of the text that start at a line start. -/
theorem rowIds_stable_iff (text : List Char) : (∀ parse : List Char → LogLine GrokRow,
      Windows.Stable (grokIdAt parse (splitLines text)) ↔ GrokHashesApart parse (splitLines text)) ∧
    (∀ parse : List Char → LogLine CursorRow,
      Windows.Stable (cursorRowIdAt parse (splitLines text)) ↔ CursorHashesApart parse (splitLines text)) ∧
    (∀ (legacy : List Char → Option (List Char × Bool)) (parse : List Char → LogLine CodexLine),
      Windows.Stable (codexIdAt legacy parse (splitLines text)) ↔ CodexKeysApart legacy parse (splitLines text)) :=
  ⟨fun parse => stable_grokIdAt parse (splitLines text), fun parse => stable_cursorRowIdAt parse (splitLines text),
    fun legacy parse => stable_codexIdAt legacy parse (splitLines text)⟩

def goLine : List Char := "\x7b\"type\":\"user\",\"content\":\"go\"\x7d".toList

def readGo (line : List Char) : LogLine GrokRow :=
  if line = goLine then .row { type := some "user", content := .string ['g', 'o'] } else .unparsed

/-- An operator's second `go` has the first one's id in a window that begins between them. -/
theorem rowIds_not_stable : ¬ Windows.Stable (grokIdAt readGo (splitLines (goLine ++ '\n' :: goLine))) := by
  intro h
  have hfirst : GrokShows readGo (splitLines (goLine ++ '\n' :: goLine)) 0 0 :=
    ⟨by decide, le_refl 0, _, rfl, .inl (by decide)⟩
  have hsecond : GrokShows readGo (splitLines (goLine ++ '\n' :: goLine)) 1 1 :=
    ⟨by decide, le_refl 1, _, rfl, .inl (by decide)⟩
  exact ((stable_grokIdAt _ _).mp h 0 1 Nat.one_pos rfl rfl).1 ⟨hfirst, hsecond⟩

end Sightr
