import MflFrontend.Files.Store
import MflFrontend.Grammar.Program
import MflFrontend.Proofs.Lexing.LineEnds
import MflFrontend.Proofs.Text.Utf8

/-!
# Programs in files

A file that holds the bytes of a text is read back as that text with its line ends unified, and the
parse does not see the difference if there are no carriage returns but those before a line feed.
-/

namespace MflFrontend

/-- The bytes of a text are read as the text with unified line ends. -/
theorem sourceText_toUTF8 (t : String) :
    sourceText t.toUTF8.data.toList = .ok (String.ofList (unifyLineEnds t.toList)) := by
  rw [sourceText, Utf8.decode_toUTF8]
  rfl

/-- Unifying line ends changes nothing of what is read from a text. -/
theorem pulls_unifyLineEnds {t : String} (h : ReturnsPaired t.toList) :
    (Cursor.start (String.ofList (unifyLineEnds t.toList))).pulls = (Cursor.start t).pulls := by
  refine Cursor.Unified.pulls ⟨?_, rfl⟩
  show Unifies t.toList (String.ofList (unifyLineEnds t.toList)).toList
  rw [String.toList_ofList]
  exact unifies_unifyLineEnds h

/-- A file that holds the bytes of a text is parsed as the text is: to the same tree, or to the same
failure, with the same records. -/
theorem parseFile_eq_parseText (s : FileStore) (room : Nat) (path t : String)
    (hfile : s.read path = .ok t.toUTF8.data.toList) (hreturns : ReturnsPaired t.toList) :
    s.parseFile room path = .ok (parseText room t) := by
  have htext : s.readText path = .ok (String.ofList (unifyLineEnds t.toList)) := by
    simp only [FileStore.readText, readSource, hfile, sourceText_toUTF8]
  have hparse : parseText room (String.ofList (unifyLineEnds t.toList)) = parseText room t := by
    unfold parseText TokenSource.ofText
    rw [pulls_unifyLineEnds hreturns]
  rw [FileStore.parseFile, htext, ← hparse]
  rfl

/-- A text with a comment, and with the line ends of another system. -/
def pairedText : String := "x # é\r\n;\r\n"

/-- A store with the text in a file. -/
def pairedStore : FileStore :=
  .ofNames [("lib/a.mfl", .file pairedText.toUTF8.data.toList)]

/-- The file is read as another text than it holds, and is parsed as the one it holds. -/
theorem pairedStore_parsed :
    pairedStore.read "lib/a.mfl" = .ok pairedText.toUTF8.data.toList ∧
      ReturnsPaired pairedText.toList ∧
      (∃ text, pairedStore.readText "lib/a.mfl" = .ok text ∧ text ≠ pairedText) ∧
      pairedStore.parseFile 40 "lib/a.mfl" = .ok (parseText 40 pairedText) := by
  have hfile : pairedStore.read "lib/a.mfl" = .ok pairedText.toUTF8.data.toList := rfl
  have hreturns : ReturnsPaired pairedText.toList := by decide
  refine ⟨hfile, hreturns, ⟨String.ofList (unifyLineEnds pairedText.toList), ?_, by decide⟩,
    parseFile_eq_parseText pairedStore 40 "lib/a.mfl" pairedText hfile hreturns⟩
  simp only [FileStore.readText, readSource, hfile, sourceText_toUTF8]

end MflFrontend
