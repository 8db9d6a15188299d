import Mathlib.Data.List.Forall2
import MflFrontend.Command.Options

/-!
# Command lines that are read to the end

Flags in their full spellings, then the separator and one word: such a command line comes to the
flags, in their order, and to that word as the source, whatever the word is. It is read to the end
unless one of the flags asks for help or two of them clash.
-/

namespace MflFrontend

/-- The characters stand for the flag: its letter behind a dash, or its long spelling. -/
def Flag.SpelledBy (f : Flag) (cs : List Char) : Prop :=
  (∃ c, f.short? = some c ∧ cs = ['-', c]) ∨ cs = f.long

/-- Every flag may be given, and so may be all of them together. -/
structure Flag.Compatible (fs : List Flag) : Prop where
  help : .help ∉ fs
  levels : ¬ (.verbose ∈ fs ∧ .quiet ∈ fs)

namespace Word

theorem classify_spelled {f : Flag} {cs : List Char} (h : f.SpelledBy cs) :
    classify cs = .ok (.flag f []) := by
  rcases h with ⟨c, hc, rfl⟩ | rfl
  · cases f <;> cases hc <;> rfl
  · cases f <;> rfl

theorem ne_separator {f : Flag} {cs : List Char} (h : f.SpelledBy cs) : cs ≠ ['-', '-'] := by
  rcases h with ⟨c, hc, rfl⟩ | rfl
  · cases f <;> cases hc <;> decide
  · cases f <;> decide

/-- Before the separator the flags are found, and behind it every word is an operand. -/
theorem classifyAll_flags {fs : List Flag} {spellings : List (List Char)}
    (h : List.Forall₂ Flag.SpelledBy fs spellings) (operands : List (List Char)) :
    classifyAll (spellings ++ ['-', '-'] :: operands) =
      .ok (fs.map (.flag · []) ++ .separator :: operands.map .operand) := by
  induction h with
  | nil => exact if_pos rfl
  | cons hspelled _ ih =>
    rw [List.cons_append, classifyAll, if_neg (ne_separator hspelled), classify_spelled hspelled, ih]
    rfl

end Word

theorem Flag.rival?_eq_some {f g : Flag} (h : f.rival? = some g) :
    f = .verbose ∧ g = .quiet ∨ f = .quiet ∧ g = .verbose := by
  cases f <;> cases h
  · exact .inl ⟨rfl, rfl⟩
  · exact .inr ⟨rfl, rfl⟩

/-- A flag stands beside no rival of its own. -/
theorem Flag.Compatible.rival_not_mem {f : Flag} {fs : List Flag} (h : Flag.Compatible fs)
    (hf : f ∈ fs) {g : Flag} (hg : f.rival? = some g) : g ∉ fs := by
  intro hmem
  rcases rival?_eq_some hg with ⟨rfl, rfl⟩ | ⟨rfl, rfl⟩
  · exact h.levels ⟨hf, hmem⟩
  · exact h.levels ⟨hmem, hf⟩

namespace OptionReader

/-- Flags were read so far, and nothing else. -/
def ofFlags (fs : List Flag) : OptionReader := { options := { flags := fs } }

theorem take_flag {taken : List Flag} {f : Flag} {fs : List Flag}
    (h : Flag.Compatible (taken ++ f :: fs)) :
    (ofFlags taken).take (.flag f []) = .ok (ofFlags (taken ++ [f])) := by
  have hf : f ∈ taken ++ f :: fs := List.mem_append_right taken List.mem_cons_self
  have hhelp : f ≠ .help := fun heq => h.help (heq ▸ hf)
  have hrival : f.rival?.filter (ofFlags taken).options.has = none := by
    cases hg : f.rival? with
    | none => rfl
    | some g =>
      have hnot : g ∉ taken := fun hmem =>
        h.rival_not_mem hf hg (List.mem_append_left _ hmem)
      simpa [Option.filter, Options.has, ofFlags] using hnot
  show takeFlags (ofFlags taken) [f] = _
  unfold takeFlags
  rw [if_neg hhelp, hrival]
  rfl

/-- Compatible flags are taken one after the other. -/
theorem takeAll_flags (taken : List Flag) {fs : List Flag} (h : Flag.Compatible (taken ++ fs))
    (words : List Word) :
    (ofFlags taken).takeAll (fs.map (.flag · []) ++ words) =
      (ofFlags (taken ++ fs)).takeAll words := by
  induction fs generalizing taken with
  | nil => rw [List.append_nil]; rfl
  | cons f fs ih =>
    rw [List.map_cons, List.cons_append, takeAll, take_flag h]
    have hsplit : taken ++ f :: fs = taken ++ [f] ++ fs := by simp
    rw [hsplit] at h ⊢
    exact ih _ h

end OptionReader

/-- Compatible flags, the separator and a word come to the flags and the word as the source. -/
theorem Options.ofArguments_flags {fs : List Flag} {words : List String}
    (h : List.Forall₂ (fun f w => Flag.SpelledBy f w.toList) fs words)
    (hcompatible : Flag.Compatible fs) (source : String) :
    Options.ofArguments (words ++ ["--", source]) = .ok ⟨some source, fs⟩ := by
  have hspelled : List.Forall₂ Flag.SpelledBy fs (words.map String.toList) :=
    List.forall₂_map_right_iff.mpr h
  have hwords : (words ++ ["--", source]).map String.toList =
      words.map String.toList ++ ['-', '-'] :: [source.toList] := by
    rw [List.map_append]
    rfl
  -- no source came before the separator, so the separator leaves no trace
  have hlast : (OptionReader.ofFlags fs).takeAll [.separator, .operand source.toList] =
      .ok ⟨⟨some (String.ofList source.toList), fs⟩, [], true⟩ := rfl
  have htaken : ({} : OptionReader).takeAll
      (fs.map (.flag · []) ++ .separator :: [source.toList].map .operand) =
        .ok ⟨⟨some source, fs⟩, [], true⟩ := by
    rw [String.ofList_toList] at hlast
    rw [← hlast]
    exact OptionReader.takeAll_flags [] hcompatible _
  unfold ofArguments
  rw [hwords, Word.classifyAll_flags hspelled]
  simp only [htaken]
  rfl

end MflFrontend
