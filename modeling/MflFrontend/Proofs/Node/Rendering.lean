import MflFrontend.Proofs.Node.Blocks
import MflFrontend.Proofs.Node.Resemblance
import MflFrontend.Proofs.Token.Display

/-!
# A rendered tree tells the tree

The lines of a tree say where the tree ends, because every block that is opened is closed by a line
that opens nothing: no node opens with a parenthesis. So the lines of a tree with any other lines
behind them tell the tree and these lines. A line feed stands in no line, so the rendered text tells
the lines.

Names that are bound in declaration form are shown without quotes. Such a name could hold a line
feed and what follows it, so trees with such bindings are left out.
-/

namespace MflFrontend

/-- Texts without line feeds are told by what they make up one below the other. -/
theorem intercalate_injective {ls ms : List String} (hls : ls ≠ []) (hms : ms ≠ [])
    (hlines : ∀ l ∈ ls, '\n' ∉ l.toList) (hmines : ∀ m ∈ ms, '\n' ∉ m.toList)
    (h : "\n".intercalate ls = "\n".intercalate ms) : ls = ms := by
  have hsplit : ∀ {ks : List String}, ks ≠ [] → (∀ k ∈ ks, '\n' ∉ k.toList) →
      ("\n".intercalate ks).toList.splitOn '\n' = ks.map String.toList := by
    intro ks hks hfeeds
    have hfeed : "\n".toList = ['\n'] := by simp
    rw [String.toList_intercalate, hfeed]
    exact List.splitOn_intercalate '\n' (List.forall_mem_map.mpr hfeeds) (by simpa using hks)
  have hlists := hsplit hls hlines
  rw [h, hsplit hms hmines] at hlists
  exact (List.map_injective_iff.mpr (fun _ _ => String.toList_injective) hlists).symm

/-- The text of the line that a node opens with. -/
def Heading.text : Heading → String
  | single text => text
  | block text => text

namespace Node

/-- The tree has no strays and no bindings in declaration form. -/
structure Plain (n : Node) : Prop where
  /-- All variants are known. -/
  strayFree : n.StrayFree
  /-- No node is a binding in declaration form. -/
  bindingFree : ∀ m : Node, m.Occurs n → m.variant ≠ .binding

/-- The trees are the same but for the lines of their nodes and the places of their tokens. -/
def SameTokens : Node → Node → Prop := Resembles (fun _ _ => True) Token.Alike Token.Alike

theorem Plain.child {m n : Node} (h : n.Plain) (hm : m ∈ n.children) : m.Plain :=
  ⟨h.strayFree.child hm, fun l hl => h.bindingFree l (.inside hm hl)⟩

/-- A plain tree in which every node opens. -/
structure Rendered (n : Node) : Prop where
  /-- The tree is plain. -/
  plain : n.Plain
  /-- Every node opens. -/
  opens : n.fault? = none

theorem Rendered.child {m n : Node} (h : n.Rendered) (hm : m ∈ n.children) : m.Rendered := by
  obtain ⟨-, hchildren⟩ := Option.or_eq_none_iff.mp (fault?_eq n ▸ h.opens)
  exact ⟨h.plain.child hm, List.findSome?_eq_none_iff.mp hchildren m hm⟩

/-! ## Opening lines -/

theorem single_of_leaf {line : Int} {token : Token} {heading : Heading}
    (h : (leaf line token).heading = .ok heading) : heading = .single token.display := by
  rw [Node.heading] at h
  split at h <;> cases h
  rfl

/-- A plain node opens with a letter, and on one line. -/
theorem Plain.letter_first {n : Node} (h : n.Plain) {heading : Heading}
    (hheading : n.heading = .ok heading) :
    (∃ c, heading.text.toList.head? = some c ∧ c.isUpper = true) ∧
      '\n' ∉ heading.text.toList := by
  have hname : ∀ op : TokenKind, '\n' ∉ op.name.toList := fun op hop => by
    cases Token.isUpper_of_mem_name op _ hop
  cases n with
  | program line statements =>
    cases hheading
    exact ⟨⟨'P', by simp [Heading.text], rfl⟩, by simp [Heading.text]⟩
  | binding line name rhs => exact absurd rfl (h.bindingFree _ .self)
  | binary line left right op =>
    cases hheading
    exact ⟨⟨'B', by simp [Heading.text], rfl⟩, by simp [Heading.text, hname]⟩
  | relation line left right op =>
    cases hheading
    exact ⟨⟨'R', by simp [Heading.text], rfl⟩, by simp [Heading.text, hname]⟩
  | unary line operand op =>
    cases hheading
    exact ⟨⟨'U', by simp [Heading.text], rfl⟩, by simp [Heading.text, hname]⟩
  | leaf line token =>
    cases single_of_leaf hheading
    exact ⟨⟨'T', by simp [Heading.text, Token.display_eq], rfl⟩, token.feed_not_mem_display⟩
  | stray line name => exact absurd rfl (h.strayFree _ .self name)

theorem Rendered.exists_heading {n : Node} (h : n.Rendered) :
    ∃ heading, n.heading = .ok heading ∧
      (∃ c, heading.text.toList.head? = some c ∧ c.isUpper = true) ∧
      '\n' ∉ heading.text.toList := by
  obtain ⟨hown, -⟩ := Option.or_eq_none_iff.mp (fault?_eq n ▸ h.opens)
  rcases n.heading_cases with ⟨heading, hheading, -⟩ | ⟨fault, -, hfault⟩
  · exact ⟨heading, hheading, h.plain.letter_first hheading⟩
  · rw [hown] at hfault
    cases hfault

/-- The opening line of a plain node tells all that it shows of the node itself. -/
theorem rootsResemble_of_heading {a b : Node} (ha : a.Plain) (hb : b.Plain) {x y : Heading}
    (hx : a.heading = .ok x) (hy : b.heading = .ok y) (h : x.text = y.text) :
    RootsResemble (fun _ _ => True) Token.Alike Token.Alike a b := by
  have hinitial := congrArg (·.toList.head?) h
  have hlists := congrArg String.toList h
  have hname : ∀ {op op' : TokenKind} {before after : List Char},
      before ++ (op.name.toList ++ after) = before ++ (op'.name.toList ++ after) → op = op' := by
    intro op op' before after h
    have hnames := List.append_cancel_right (List.append_cancel_left h)
    exact TokenKind.name_inj.mp (String.toList_injective hnames)
  cases a <;> cases b
  case leaf.leaf =>
    cases single_of_leaf hx
    cases single_of_leaf hy
    exact .leaf trivial (Token.display_eq_iff.mp h)
  all_goals
    first
    | exact absurd rfl (ha.bindingFree _ .self)
    | exact absurd rfl (hb.bindingFree _ .self)
    | exact absurd rfl (ha.strayFree _ .self _)
    | exact absurd rfl (hb.strayFree _ .self _)
    | (cases hx; cases hy)
    | (cases single_of_leaf hx; cases hy)
    | (cases hx; cases single_of_leaf hy)
  case program.program => exact .program trivial
  case binary.binary =>
    simp only [Heading.text, String.toList_append, List.append_assoc] at hlists
    cases hname hlists
    exact .binary trivial
  case relation.relation =>
    simp only [Heading.text, String.toList_append, List.append_assoc] at hlists
    cases hname hlists
    exact .relation trivial
  case unary.unary =>
    simp only [Heading.text, String.toList_append, List.append_assoc] at hlists
    cases hname hlists
    exact .unary trivial
  -- nodes of two variants open with two letters
  all_goals simp [Heading.text, Token.display_eq] at hinitial

/-- Leaves resemble leaves alone. -/
theorem RootsResemble.isLeaf_eq {L : Int → Int → Prop} {N T : Token → Token → Prop} {a b : Node}
    (h : RootsResemble L N T a b) : a.isLeaf = b.isLeaf := by
  cases h <;> rfl

/-! ## Lines -/

theorem blanks_append_inj {j k : Int} {s t : String} (hs : s.toList.head? ≠ some ' ')
    (ht : t.toList.head? ≠ some ' ') (h : blanks j ++ s = blanks k ++ t) : s = t := by
  have hdrop : ∀ {k : Int} {s : String}, s.toList.head? ≠ some ' ' →
      (blanks k ++ s).toList.dropWhile (· == ' ') = s.toList := by
    intro k s hs
    rw [String.toList_append, blanks, String.toList_ofList]
    rw [List.dropWhile_append_of_pos (by simp)]
    cases hlist : s.toList with
    | nil => rfl
    | cons c cs =>
      rw [hlist] at hs
      rw [List.dropWhile_cons_of_neg]
      simpa using hs
  have hrest := hdrop (k := j) hs
  rw [h, hdrop ht] at hrest
  exact (String.toList_injective hrest).symm

/-- Nothing opens with a blank or a parenthesis. -/
theorem head?_ne_of_isUpper {l : List Char} (h : ∃ c, l.head? = some c ∧ c.isUpper = true)
    {d : Char} (hd : d.isUpper = false) : l.head? ≠ some d := by
  obtain ⟨c, hc, hupper⟩ := h
  intro hhead
  rw [hc] at hhead
  cases hhead
  rw [hupper] at hd
  cases hd

/-- The first line of a plain tree is the opening line of its root. -/
theorem exists_layout_cons {n : Node} {heading : Heading} (h : n.heading = .ok heading) (k : Int) :
    ∃ more, n.layout k = (blanks k ++ heading.text) :: more := by
  rw [layout_of_heading h]
  cases heading with
  | single text => exact ⟨_, rfl⟩
  | block text => exact ⟨_, rfl⟩

/-- The lines of the tree tell the tree and what lines stand behind them. -/
def Told (a : Node) : Prop :=
  ∀ {b : Node}, b.Rendered → ∀ {k : Int} {ls ms : List String},
    a.layout k ++ ls = b.layout k ++ ms → a.SameTokens b ∧ ls = ms

/-- Trees in a row with a closing parenthesis behind them are told by their lines. -/
theorem row_told {as bs : List Node} (has : ∀ a ∈ as, a.Told) (hbs : ∀ b ∈ bs, b.Rendered)
    (hplain : ∀ a ∈ as, a.Rendered) {j k : Int} {ls ms : List String}
    (h : as.flatMap (layout j) ++ (blanks k ++ ")") :: ls =
      bs.flatMap (layout j) ++ (blanks k ++ ")") :: ms) :
    List.Forall₂ SameTokens as bs ∧ ls = ms := by
  -- no tree starts where a block is closed
  have hclose : ∀ {n : Node} {ns : List Node} {ls ms : List String}, n.Rendered →
      (n :: ns).flatMap (layout j) ++ ls ≠ (blanks k ++ ")") :: ms := by
    intro n ns ls ms hn heq
    obtain ⟨heading, hheading, hletter, -⟩ := hn.exists_heading
    obtain ⟨more, hmore⟩ := exists_layout_cons hheading j
    rw [List.flatMap_cons, hmore] at heq
    injection heq with hfirst
    have htext := blanks_append_inj (head?_ne_of_isUpper hletter rfl) (by simp) hfirst
    exact head?_ne_of_isUpper hletter (d := ')') rfl (by simp [htext])
  induction as generalizing bs with
  | nil =>
    cases bs with
    | nil => exact ⟨.nil, (List.cons.inj h).2⟩
    | cons b bs => exact absurd h.symm (hclose (hbs b List.mem_cons_self))
  | cons a as ih =>
    cases bs with
    | nil => exact absurd h (hclose (hplain a List.mem_cons_self))
    | cons b bs =>
      obtain ⟨ha, has⟩ := List.forall_mem_cons.mp has
      obtain ⟨hb, hbs⟩ := List.forall_mem_cons.mp hbs
      rw [List.flatMap_cons, List.flatMap_cons, List.append_assoc, List.append_assoc] at h
      obtain ⟨hsame, hrest⟩ := ha hb h
      obtain ⟨hsames, hrests⟩ := ih has hbs (fun a ha => hplain a (List.mem_cons_of_mem _ ha)) hrest
      exact ⟨.cons hsame hsames, hrests⟩

/-- The lines of a plain tree tell the tree and where its lines end. -/
theorem Rendered.told {a : Node} (ha : a.Rendered) : a.Told := by
  induction a using inductionOnChildren with
  | step a ih =>
    intro b hb k ls ms h
    obtain ⟨x, hx, hxletter, -⟩ := ha.exists_heading
    obtain ⟨y, hy, hyletter, -⟩ := hb.exists_heading
    have hroots : RootsResemble (fun _ _ => True) Token.Alike Token.Alike a b := by
      obtain ⟨amore, hamore⟩ := exists_layout_cons hx k
      obtain ⟨bmore, hbmore⟩ := exists_layout_cons hy k
      rw [hamore, hbmore] at h
      injection h with hfirst
      exact rootsResemble_of_heading ha.plain hb.plain hx hy (blanks_append_inj
        (head?_ne_of_isUpper hxletter rfl) (head?_ne_of_isUpper hyletter rfl) hfirst)
    rw [layout_of_heading hx, layout_of_heading hy] at h
    cases x with
    | single text =>
      cases y with
      | single text' =>
        injection h with _ hrest
        refine ⟨resembles_iff.mpr ⟨hroots, ?_⟩, hrest⟩
        rw [(leaf_of_single hx).2, (leaf_of_single hy).2]
        exact .nil
      | block text' =>
        have hleaf := hroots.isLeaf_eq
        rw [(leaf_of_single hx).1, not_leaf_of_block hy] at hleaf
        cases hleaf
    | block text =>
      cases y with
      | single text' =>
        have hleaf := hroots.isLeaf_eq
        rw [not_leaf_of_block hx, (leaf_of_single hy).1] at hleaf
        cases hleaf
      | block text' =>
        simp only [block, List.cons_append, List.append_assoc, List.nil_append] at h
        injection h with _ hinner
        obtain ⟨hchildren, hrest⟩ := row_told (fun m hm => ih m hm (ha.child hm))
          (fun m hm => hb.child hm) (fun m hm => ha.child hm) hinner
        exact ⟨resembles_iff.mpr ⟨hroots, hchildren⟩, hrest⟩

/-- No line of a plain tree has a line feed. -/
theorem Rendered.feed_not_mem {n : Node} (h : n.Rendered) (k : Int) :
    ∀ l ∈ n.layout k, '\n' ∉ l.toList := by
  have hindented : ∀ {k : Int} {s : String}, '\n' ∉ s.toList → '\n' ∉ (blanks k ++ s).toList := by
    intro k s hs
    simp [blanks, hs]
  induction n using inductionOnChildren generalizing k with
  | step n ih =>
    obtain ⟨heading, hheading, -, hfeed⟩ := h.exists_heading
    rw [layout_of_heading hheading]
    cases heading with
    | single text => exact List.forall_mem_singleton.mpr (hindented hfeed)
    | block text =>
      intro l hl
      simp only [block, List.mem_cons, List.mem_append, List.mem_flatMap, List.not_mem_nil,
        or_false] at hl
      rcases hl with rfl | ⟨m, hm, hl⟩ | rfl
      · exact hindented hfeed
      · exact ih m hm (h.child hm) _ l hl
      · exact hindented (by simp)

/-! ## The rendered text -/

/-- Nodes that resemble each other open alike, or both do not open. -/
theorem RootsResemble.heading_eq {L : Int → Int → Prop} {a b : Node}
    (h : RootsResemble L Token.Alike Token.Alike a b) : a.heading = b.heading := by
  cases h with
  | leaf _ htoken => simp only [heading, Token.display_eq_iff.mpr htoken, htoken.isWritable_iff]
  | binding _ hname => simp only [heading, hname.value, hname.isWritable_iff]
  | _ => rfl

/-- Trees with the same tokens have the same lines, if they have any. -/
theorem SameTokens.rows_eq {a b : Node} (h : a.SameTokens b) (k : Int) : a.rows k = b.rows k := by
  induction a using inductionOnChildren generalizing b k with
  | step a ih =>
    obtain ⟨hroots, hchildren⟩ := resembles_iff.mp h
    refine rows_congr hroots.heading_eq ?_ k
    have hrow : ∀ {as bs : List Node}, List.Forall₂ SameTokens as bs →
        (∀ m ∈ as, m ∈ a.children) →
        List.Forall₂ (fun m m' : Node => ∀ k, m.rows k = m'.rows k) as bs := by
      intro as bs hsame hmem
      induction hsame with
      | nil => exact .nil
      | cons hfirst _ ihrow =>
        obtain ⟨hm, hmem⟩ := List.forall_mem_cons.mp hmem
        exact .cons (ih _ hm hfirst) (ihrow hmem)
    exact hrow hchildren fun _ hm => hm

theorem SameTokens.render_eq {a b : Node} (h : a.SameTokens b) (k : Int) :
    a.render k = b.render k := by
  unfold render lines
  rw [h.rows_eq k]

theorem Rendered.layout_ne_nil {n : Node} (h : n.Rendered) (k : Int) : n.layout k ≠ [] := by
  obtain ⟨heading, hheading, -⟩ := h.exists_heading
  obtain ⟨more, hmore⟩ := exists_layout_cons hheading k
  rw [hmore]
  exact List.cons_ne_nil _ _

/-- A tree without strays that can be written is rendered at every index. -/
theorem StrayFree.render {n : Node} (h : n.StrayFree) (hlegible : n.Legible) {k : Int}
    (hk : IsIndex k) : n.render k = .ok ("\n".intercalate (n.layout k)) := by
  rw [Node.render, lines_eq_layout hk, h.fault?_eq_none hlegible]
  rfl

/-- What is rendered is the layout, and every node opened. -/
theorem layout_of_render {n : Node} {k : Int} {s : String} (h : n.render k = .ok s) :
    n.fault? = none ∧ s = "\n".intercalate (n.layout k) := by
  unfold Node.render lines at h
  split at h
  · rw [rows_eq_layout] at h
    cases hfault : n.fault? with
    | some fault =>
      rw [hfault] at h
      cases h
    | none =>
      rw [hfault] at h
      exact ⟨rfl, (Except.ok.inj h).symm⟩
  · cases h

/-- Plain trees that can be written are rendered, at any index. Rendered trees have the same text if
and only if they are the same but for the lines of their nodes and the places of their tokens. -/
theorem render_eq_iff (a b : Node) (ha : a.Plain) (hb : b.Plain) (k : Int) :
    (IsIndex k → a.Legible → ∃ s, a.render k = .ok s) ∧
    (IsIndex k → b.Legible → ∃ t, b.render k = .ok t) ∧
    ∀ s t, a.render k = .ok s → b.render k = .ok t → (s = t ↔ a.SameTokens b) := by
  refine ⟨fun hk hlegible => ⟨_, ha.strayFree.render hlegible hk⟩,
    fun hk hlegible => ⟨_, hb.strayFree.render hlegible hk⟩, ?_⟩
  intro s t hs ht
  constructor
  · intro h
    obtain ⟨hopens, hstext⟩ := layout_of_render hs
    obtain ⟨hopens', httext⟩ := layout_of_render ht
    have har : a.Rendered := ⟨ha, hopens⟩
    have hbr : b.Rendered := ⟨hb, hopens'⟩
    have hlines := intercalate_injective (har.layout_ne_nil k) (hbr.layout_ne_nil k)
      (har.feed_not_mem k) (hbr.feed_not_mem k) (hstext.symm.trans (h.trans httext))
    have hrests : a.layout k ++ [] = b.layout k ++ [] := by rw [hlines]
    exact (har.told hbr hrests).1
  · intro h
    rw [h.render_eq, ht] at hs
    exact (Except.ok.inj hs).symm

/-- A program of one leaf, on a line and in a column. -/
def leafProgram (line column : Int) (value : Value) : Node :=
  program line [leaf line ⟨.ident, value, line, column⟩]

theorem leafProgram_plain (line column : Int) (value : Value) :
    (leafProgram line column value).Plain := by
  have hvariant : ∀ m : Node, m.Occurs (leafProgram line column value) →
      (∀ name, m.variant ≠ .stray name) ∧ m.variant ≠ .binding := by
    intro m hm
    rw [← mem_nodes_iff] at hm
    have hnodes : m = leafProgram line column value ∨
        m = leaf line ⟨.ident, value, line, column⟩ := by
      simpa [leafProgram, nodes_eq, children] using hm
    rcases hnodes with rfl | rfl <;> simp [leafProgram, variant]
  exact ⟨fun m hm => (hvariant m hm).1, fun m hm => (hvariant m hm).2⟩

theorem leafProgram_render (line column : Int) {value : Value} (h : value.IsWritable) {k : Int}
    (hk : IsIndex k) : (leafProgram line column value).render k =
      .ok ("\n".intercalate ((leafProgram line column value).layout k)) := by
  refine (leafProgram_plain line column value).strayFree.render (fun m hm t ht => ?_) hk
  rw [← mem_nodes_iff] at hm
  have hnodes : m = leafProgram line column value ∨
      m = leaf line ⟨.ident, value, line, column⟩ := by
    simpa [leafProgram, nodes_eq, children] using hm
  rcases hnodes with rfl | rfl
  · cases ht
  · cases ht
    exact h

/-- A text that holds the end of a token and a line feed is not taken for two tokens, and a number
is not taken for its digits. Places are not shown. -/
theorem leafProgram_told :
    (leafProgram 1 1 (.text "x')\n  Token(ID, 'y")).render 2 =
      .ok "  Prog(\n    Token(ID, \"x')\\n  Token(ID, 'y\")\n  )" ∧
    (leafProgram 1 1 (.text "x")).render 2 = (leafProgram 3 7 (.text "x")).render 2 ∧
    (leafProgram 1 1 (.text "1")).render 2 ≠ (leafProgram 1 1 (.int 1)).render 2 := by
  have hindex : IsIndex 2 := by decide
  have htext : ∀ s, (Value.text s).IsWritable := fun _ => trivial
  have hone : (Value.int 1).IsWritable := by decide
  have hrendered : ∀ line column {value : Value} line' column' {value' : Value},
      value.IsWritable → value'.IsWritable →
      ((leafProgram line column value).render 2 = (leafProgram line' column' value').render 2 ↔
        (leafProgram line column value).SameTokens (leafProgram line' column' value')) := by
    intro line column value line' column' value' hvalue hvalue'
    have hs := leafProgram_render line column hvalue hindex
    have ht := leafProgram_render line' column' hvalue' hindex
    have hsame := (render_eq_iff _ _ (leafProgram_plain line column value)
      (leafProgram_plain line' column' value') 2).2.2 _ _ hs ht
    rw [hs, ht, Except.ok.injEq, hsame]
  refine ⟨?_, ?_, ?_⟩
  · rw [leafProgram_render 1 1 (htext _) hindex]
    decide +kernel
  · rw [hrendered _ _ _ _ (htext _) (htext _)]
    exact .program trivial (.cons (.leaf trivial ⟨rfl, rfl⟩) .nil)
  · rw [Ne, hrendered _ _ _ _ (htext _) hone]
    intro h
    cases h with
    | program _ hstatements =>
      cases hstatements with
      | cons hleaf _ =>
        cases hleaf with
        | leaf _ htoken => exact absurd htoken.value nofun

end Node

end MflFrontend
