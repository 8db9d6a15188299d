import MflFrontend.Proofs.Lexing.Gaps
import MflFrontend.Text.Utf8

/-!
# Unified line ends

A text is read as it is, and a file with its line ends unified. Where each carriage return stands
before a line feed, this takes away nothing but the carriage returns. A cursor in the one text and
the cursor at the same location in the other then bring the same: a carriage return is trivia, it
neither opens a line nor ends a comment, and the line feed behind it does away with its column.
-/

namespace MflFrontend

/-- Each carriage return stands before a line feed. -/
def ReturnsPaired (cs : List Char) : Prop := ∀ i : Nat, cs[i]? = some '\r' → cs[i + 1]? = some '\n'

instance (cs : List Char) : Decidable (ReturnsPaired cs) :=
  decidable_of_iff (∀ i < cs.length, cs[i]? = some '\r' → cs[i + 1]? = some '\n')
    ⟨fun h i hi => h i (List.getElem?_eq_some_iff.mp hi).1 hi, fun h i _ => h i⟩

/-- The second text is the first with a line feed for each pair of a carriage return and a line feed,
and there are no other carriage returns. -/
inductive Unifies : List Char → List Char → Prop where
  /-- Nothing. -/
  | nil : Unifies [] []
  /-- A pair becomes a line feed. -/
  | pair {cs ds : List Char} (h : Unifies cs ds) : Unifies ('\r' :: '\n' :: cs) ('\n' :: ds)
  /-- Any other character stays. -/
  | char {c : Char} {cs ds : List Char} (hc : c ≠ '\r') (h : Unifies cs ds) :
      Unifies (c :: cs) (c :: ds)

theorem ReturnsPaired.tail {c : Char} {cs : List Char} (h : ReturnsPaired (c :: cs)) :
    ReturnsPaired cs := by
  intro i hi
  have hnext := h (i + 1) (by simpa using hi)
  simpa using hnext

theorem unifies_unifyLineEnds {cs : List Char} (h : ReturnsPaired cs) :
    Unifies cs (unifyLineEnds cs) := by
  fun_induction unifyLineEnds cs with
  | case1 cs ih => exact .pair (ih h.tail.tail)
  | case2 cs hpair _ =>
    have hfeed := h 0 rfl
    cases cs with
    | nil => cases hfeed
    | cons c cs =>
      injection hfeed with hc
      exact absurd (by rw [hc]) (hpair cs)
  | case3 c cs hpair hsingle ih => exact .char (fun hc => hsingle hc) (ih h.tail)
  | case4 => exact .nil

namespace Unifies

variable {cs ds : List Char}

/-- Behind `n` characters of the one text and `m` of the other, the location is the same and the rests
are unified. There is a comment among both or among none. -/
structure Keeps (cs ds : List Char) (n m : Nat) : Prop where
  /-- The rests are unified. -/
  rest : Unifies (cs.drop n) (ds.drop m)
  /-- The location is the same. -/
  location : ∀ l : Location, l.afterAll (cs.take n) = l.afterAll (ds.take m)
  /-- The sign that opens comments is among both or among none. -/
  sharp : '#' ∈ cs.take n ↔ '#' ∈ ds.take m

theorem nil_iff (h : Unifies cs ds) : ds = [] ↔ cs = [] := by
  cases h <;> simp

/-! ## Trivia -/

/-- What trivia a text begins with is decided by its characters one by one. -/
theorem triviaLength_cons (inComment : Bool) (c : Char) :
    (∀ cs, triviaLength inComment (c :: cs) = 0) ∨
      ∃ inComment', ∀ cs, triviaLength inComment (c :: cs) = triviaLength inComment' cs + 1 := by
  cases inComment with
  | true => exact .inr ⟨c != '\n', fun cs => rfl⟩
  | false =>
    by_cases hblank : isTriviaBlank c = true
    · exact .inr ⟨false, triviaLength_blank hblank⟩
    · by_cases hsharp : c = '#'
      · exact .inr ⟨true, fun cs => hsharp ▸ triviaLength_sharp cs⟩
      · exact .inl (triviaLength_front (by simpa using hblank) hsharp)

/-- Behind the trivia in front, inside a comment or not, the rests are unified. -/
theorem keeps_trivia (h : Unifies cs ds) (inComment : Bool) :
    Keeps cs ds (triviaLength inComment cs) (triviaLength inComment ds) := by
  induction h generalizing inComment with
  | nil => exact ⟨.nil, fun _ => rfl, .rfl⟩
  | @pair cs ds h ih =>
    -- both characters of the pair are trivia, and the feed ends a comment in both texts
    have hpair : triviaLength inComment ('\r' :: '\n' :: cs) = triviaLength false cs + 2 := by
      cases inComment <;> rfl
    have hfeed : triviaLength inComment ('\n' :: ds) = triviaLength false ds + 1 := by
      cases inComment <;> rfl
    obtain ⟨hrest, hlocation, hsharp⟩ := ih false
    rw [hpair, hfeed]
    exact ⟨hrest, fun l => hlocation (l.after '\n'), by simpa using hsharp⟩
  | @char c cs ds hc h ih =>
    rcases triviaLength_cons inComment c with hstops | ⟨inComment', hgoes⟩
    · rw [hstops cs, hstops ds]
      exact ⟨.char hc h, fun _ => rfl, .rfl⟩
    · obtain ⟨hrest, hlocation, hsharp⟩ := ih inComment'
      rw [hgoes cs, hgoes ds]
      exact ⟨hrest, fun l => hlocation (l.after c), 
        by simp only [List.take_succ_cons, List.mem_cons, hsharp]⟩

/-! ## Lexemes -/

/-- The texts have a front part in common, behind which both are at an end or at the end of a line. -/
theorem exists_front (h : Unifies cs ds) :
    ∃ front cs' ds', cs = front ++ cs' ∧ ds = front ++ ds' ∧ (∀ c ∈ front, c ≠ '\r') ∧
      Unifies cs' ds' ∧ (∀ c, cs'.head? = some c → OpensTrivia c) ∧
      ∀ c, ds'.head? = some c → OpensTrivia c := by
  induction h with
  | nil => exact ⟨[], [], [], rfl, rfl, by simp, .nil, nofun, nofun⟩
  | @pair cs ds h _ =>
    refine ⟨[], _, _, rfl, rfl, by simp, .pair h, fun c hc => ?_, fun c hc => ?_⟩
    · injection hc with hc
      exact hc ▸ .inl rfl
    · injection hc with hc
      exact hc ▸ .feed
  | @char c cs ds hc _ ih =>
    obtain ⟨front, cs', ds', rfl, rfl, hfront, hrest, hcs, hds⟩ := ih
    exact ⟨c :: front, cs', ds', rfl, rfl, List.forall_mem_cons.mpr ⟨hc, hfront⟩, hrest, hcs, hds⟩

theorem behind {front : List Char} (hfront : ∀ c ∈ front, c ≠ '\r') (h : Unifies cs ds) :
    Unifies (front ++ cs) (front ++ ds) := by
  induction front with
  | nil => exact h
  | cons c front ih =>
    obtain ⟨hc, hfront⟩ := List.forall_mem_cons.mp hfront
    exact .char hc (ih hfront)

/-- Within a common front part, as much is passed in both texts. -/
theorem keeps_front {front : List Char} (hfront : ∀ c ∈ front, c ≠ '\r') (h : Unifies cs ds) {n : Nat}
    (hn : n ≤ front.length) : Keeps (front ++ cs) (front ++ ds) n n := by
  constructor
  · rw [List.drop_append_of_le_length hn, List.drop_append_of_le_length hn]
    exact behind (fun c hc => hfront c (List.mem_of_mem_drop hc)) h
  · intro l
    rw [List.take_append_of_le_length hn, List.take_append_of_le_length hn]
  · rw [List.take_append_of_le_length hn, List.take_append_of_le_length hn]

/-- The same is read from both texts, and as much of them is taken. -/
theorem read_eq {a : Char} (ha : a ≠ '\r') (h : Unifies cs ds) :
    Lexeme.read a ds = Lexeme.read a cs ∧
      Keeps (a :: cs) (a :: ds) (Lexeme.read a cs).length (Lexeme.read a cs).length := by
  obtain ⟨front, cs', ds', rfl, rfl, hfront, hrest, hcs, hds⟩ := h.exists_front
  rw [read_before_trivia hcs, read_before_trivia hds]
  exact ⟨rfl, keeps_front (List.forall_mem_cons.mpr ⟨ha, hfront⟩) hrest (length_read_le a front)⟩

end Unifies

/-! ## Reading -/

namespace Cursor

variable {c c' : Cursor}

/-- The second cursor stands at the location of the first, before the same characters with unified
line ends. -/
structure Unified (c c' : Cursor) : Prop where
  /-- The characters to come are unified. -/
  rest : Unifies c.rest c'.rest
  /-- The location is the same. -/
  location : c'.toLocation = c.toLocation

theorem Unified.pass (h : Unified c c') {n m : Nat} (hkeeps : Unifies.Keeps c.rest c'.rest n m) :
    Unified (c.pass n) (c'.pass m) := by
  refine ⟨hkeeps.rest, ?_⟩
  show c'.toLocation.afterAll (c'.rest.take m) = c.toLocation.afterAll (c.rest.take n)
  rw [h.location, hkeeps.location]

/-- Trivia are skipped as far as they go. -/
theorem triviaLength_skipTrivia (c : Cursor) : triviaLength false c.skipTrivia.rest = 0 := by
  obtain ⟨⟨w, rest, hrest, hw, hfront⟩, -⟩ := trivia_split c.rest
  obtain ⟨hskip, hbehind⟩ := skipTrivia_eq hrest hw hfront
  rw [hskip, hbehind, hfront]

/-- One reading brings the same, and leads to the same location. -/
theorem Unified.scan (h : Unified c c') :
    c'.scan.outcome = c.scan.outcome ∧ c'.scan.taken = c.scan.taken ∧
      Unified c.scan.cursor c'.scan.cursor := by
  have hskip : Unified c.skipTrivia c'.skipTrivia := h.pass (h.rest.keeps_trivia false)
  have hfront := triviaLength_skipTrivia c
  have hrest := hskip.rest
  have hline : c'.skipTrivia.line = c.skipTrivia.line := by rw [hskip.location]
  have hcolumn : c'.skipTrivia.column = c.skipTrivia.column := by rw [hskip.location]
  unfold Cursor.scan scanLexeme
  generalize hcs : c.skipTrivia.rest = cs at hrest hfront
  generalize hds : c'.skipTrivia.rest = ds at hrest
  -- no pair stands in front, since it would have been skipped
  cases hrest with
  | nil =>
    refine ⟨?_, rfl, hskip⟩
    simp only [sentinel, hline, hcolumn]
  | pair => cases hfront
  | @char a cs ds ha hrest =>
    obtain ⟨hread, hkeeps⟩ := hrest.read_eq ha
    simp only [hread]
    refine ⟨?_, trivial, hskip.pass (hcs ▸ hds ▸ hkeeps)⟩
    cases (Lexeme.read a cs).outcome with
    | ok token => simp only [locate, hline, hcolumn]
    | error fault => cases fault <;> simp only [locate, hline]

/-- One reading takes as many frames. -/
theorem Unified.frames (h : Unified c c') : c'.frames = c.frames := by
  have hsharp : '#' ∈ c'.trivia ↔ '#' ∈ c.trivia := (h.rest.keeps_trivia false).sharp.symm
  unfold Cursor.frames
  simp only [h.rest.nil_iff, hsharp]

/-- Reading again and again brings the same. -/
theorem Unified.pulls (h : Unified c c') : c'.pulls = c.pulls := by
  have hmap : c'.pulls = c.pulls.map id := by
    refine pulls_map (fun c c' h => ?_) h
    obtain ⟨houtcome, htaken, hcursor⟩ := h.scan
    have hline : c'.scan.cursor.line = c.scan.cursor.line := by rw [hcursor.location]
    exact ⟨by rw [pull, houtcome, hline, h.frames]; rfl, htaken, hcursor⟩
  rw [hmap, List.map_id]

end Cursor

end MflFrontend
