import Gloss.Grammar.Basic
import Gloss.Proofs.Markup.WellFormed
import Gloss.Proofs.Scan.Recording
import Gloss.Proofs.Scan.Rendered

/-!
Taking the markup of a scan out again. Without filters every token is rendered by itself, as the text of its own or as
the markup that it holds, in the tags of its kind. If that markup is well-formed, and the tags are, what is left of the
whole without its tags is what is left of the tokens, one after another.
-/
namespace Gloss

open Markup (Telling WellFormed Formed OneLine)

namespace Token

/-- The text that a token stands for. -/
def ownText (t : Token) : String := if t.escaped then Markup.strip t.text else t.text

/-- What the token holds as markup is well-formed. Where it is rendered in tags, the name in these has no closing
bracket, and no tag of the markup goes on over a line end. -/
structure Strippable (shown : Kind → Option Kind) (t : Token) : Prop where
  formed : t.escaped → WellFormed t.text.toList
  tagged : ∀ kind, t.kind.bind shown = some kind →
    '>' ∉ kind.name.toList ∧ (t.escaped → Formed OneLine t.text.toList)

/-- The token as markup, under the kind that its kind is shown as; without text there is nothing to render. -/
def rendered (shown : Kind → Option Kind) (t : Token) : String :=
  if t.text.isEmpty then ""
  else Markup.renderToken (.markup (t.kind.bind shown) (Markup.escapeToken t).text)

variable {shown : Kind → Option Kind} {t : Token}

theorem strip_escapeToken : Markup.stripChars (Markup.escapeToken t).text.toList = t.ownText.toList := by
  cases isMarkup : t.escaped with
  | true => simp [Markup.escapeToken, ownText, isMarkup, Markup.strip]
  | false =>
    simp [Markup.escapeToken, ownText, isMarkup, Markup.escape, (Markup.shows_escapeChars _).stripChars,
      Markup.unescapeChars_escapeChars]

/-- Text as markup is well-formed, and has no tags. -/
theorem formed_escapeToken {Fit : List Char → Prop} (h : t.escaped → Formed Fit t.text.toList) :
    Formed Fit (Markup.escapeToken t).text.toList := by
  cases isMarkup : t.escaped with
  | true => simpa [Markup.escapeToken, isMarkup] using h isMarkup
  | false => simpa [Markup.escapeToken, isMarkup, Markup.escape] using Formed.escapeChars t.text.toList

theorem Strippable.telling (h : t.Strippable shown) : Telling (t.rendered shown).toList t.ownText.toList := by
  by_cases empty : t.text.isEmpty
  · have none_ : t.text = "" := by simpa using empty
    have nothing : t.ownText = "" := by
      unfold ownText
      rw [none_]
      split <;> rfl
    simpa [rendered, empty, nothing] using Telling.nil
  · rw [rendered, if_neg empty, ← strip_escapeToken]
    cases name : t.kind.bind shown with
    | none => exact (formed_escapeToken h.formed).telling
    | some kind =>
      obtain ⟨closed, lines⟩ := h.tagged kind name
      exact Markup.telling_tagBlock closed (formed_escapeToken lines) true

end Token

/-- The kind that a token is rendered under: in a tree the one that the rule map says. -/
def Grammar.shownIn (g : Grammar) (s : ScanState) (kind : Kind) : Option Kind :=
  if s.outline.isSome then g.displayKind kind else some kind

theorem Grammar.shownIn_stream {g : Grammar} {s : ScanState} (flat : s.outline = none) : g.shownIn s = some := by
  funext kind
  simp [Grammar.shownIn, flat]

theorem Grammar.shownIn_tree {g : Grammar} {s : ScanState} {o : Outline} (tree : s.outline = some o) :
    g.shownIn s = g.displayKind := by
  funext kind
  simp [Grammar.shownIn, tree]

/-- No node of the tree is open, if there is a tree. -/
def ScanState.Unopened (s : ScanState) : Prop :=
  s.outline = none ∨ ∃ nodes, s.outline = some (({} : Outline).addAll nodes)

section Recording

variable {g : Grammar} {s : ScanState} {t : Token}

theorem tagged_record_stream (unfiltered : g.filters = []) (streams : g.streamFilters = []) (flat : s.outline = none)
    (some_ : ¬ t.text.isEmpty) :
    (g.tagged (s.record t)).1 = (g.tagged s).1 ++ Markup.renderToken (.markup t.kind (Markup.escapeToken t).text) := by
  have recorded : s.record t = { s with tokens := ⟨t :: s.tokens.latest⟩ } := by
    rw [ScanState.record_of_flat flat, TokenStream.push, if_neg some_]
  have whole : Markup.renderToken t = Markup.renderToken (.markup t.kind (Markup.escapeToken t).text) := by
    cases isMarkup : t.escaped <;> simp [Markup.renderToken, Markup.escapeToken, Token.markup, isMarkup]
  simp [recorded, Grammar.tagged, Grammar.renderTokens_of_unfiltered unfiltered streams, TokenStream.toList, flat,
    ← whole, String.join_append]

theorem tagged_record_tree (unfiltered : g.filters = []) {nodes : List Node}
    (tree : s.outline = some (({} : Outline).addAll nodes)) (some_ : ¬ t.text.isEmpty) :
    (g.tagged (s.record t)).1 =
        (g.tagged s).1 ++ Markup.renderToken (.markup (t.kind.bind g.displayKind) (Markup.escapeToken t).text) ∧
      ∃ n, (s.record t).outline = some (({} : Outline).addAll (nodes ++ [n])) := by
  have recorded : s.record t = { s with outline := some (({} : Outline).addAll (nodes ++ [Outline.nodeOf t])) } := by
    simp [ScanState.record, tree, Outline.record_eq, some_, Outline.add_eq]
  refine ⟨?_, _, by rw [recorded]⟩
  simp only [recorded, Grammar.tagged, tree, Outline.collapse_addAll, Outline.renderAll_append, Node.renderAll,
    Outline.render_nodeOf, Grammar.wrapNode_of_unfiltered unfiltered]
  cases isKind : t.kind <;> simp [Markup.renderToken, Markup.escapeToken, Token.markup]

/-- One token more is rendered behind the others. -/
theorem tagged_record (unfiltered : g.filters = []) (streams : g.streamFilters = []) (unopened : s.Unopened) :
    (g.tagged (s.record t)).1 = (g.tagged s).1 ++ t.rendered (g.shownIn s) ∧ (s.record t).Unopened ∧
      g.shownIn (s.record t) = g.shownIn s := by
  by_cases empty : t.text.isEmpty
  · rw [ScanState.record_of_isEmpty empty]
    exact ⟨by simp [Token.rendered, empty], unopened, rfl⟩
  rcases unopened with flat | ⟨nodes, tree⟩
  · have same : (s.record t).outline = none := by simp [ScanState.record, flat]
    rw [Grammar.shownIn_stream flat, Grammar.shownIn_stream same, Token.rendered, if_neg empty,
      Option.bind_fun_some]
    exact ⟨tagged_record_stream unfiltered streams flat empty, .inl same, rfl⟩
  · obtain ⟨more, n, grown⟩ := tagged_record_tree unfiltered tree empty
    rw [Grammar.shownIn_tree tree, Grammar.shownIn_tree grown, Token.rendered, if_neg empty]
    exact ⟨more, .inr ⟨_, grown⟩, rfl⟩

/-- What is recorded behind markup that shows a text shows the texts of its tokens behind it. -/
theorem telling_tagged (unfiltered : g.filters = []) (streams : g.streamFilters = []) (unopened : s.Unopened)
    {ts : List Token} (each : ∀ t ∈ ts, t.Strippable (g.shownIn s)) {w : List Char}
    (before : Telling (g.tagged s).1.toList w) :
    Telling (g.tagged (ts.foldl .record s)).1.toList (w ++ (String.join (ts.map Token.ownText)).toList) := by
  induction ts generalizing s w with
  | nil => simpa using before
  | cons t ts ih =>
    rw [List.forall_mem_cons] at each
    obtain ⟨more, unopened', same⟩ := tagged_record (t := t) unfiltered streams unopened
    have whole := ih unopened' (by rw [same]; exact each.2) (w := w ++ t.ownText.toList) (by
      rw [more, String.toList_append]
      exact before.append each.1.telling)
    simpa [String.join_cons] using whole

end Recording

/-- Taking the markup out undoes what rendering puts in. Entities are read back as the characters they stand for; markup
can be stripped in parts; a tag shows the markup in it, with its line ends between tags or not, and leaves each line
nested that was; and what a scan without filters has recorded is stripped to the texts of its tokens. -/
theorem strip_inverts_rendering :
    (∀ text : String, Markup.unescape (Markup.escape text) = text ∧ WellFormed (Markup.escape text).toList) ∧
    (∀ a b : String, WellFormed a.toList → WellFormed b.toList →
      Markup.strip (a ++ b) = Markup.strip a ++ Markup.strip b) ∧
    (∀ (kind : Kind) (block : String) (split : Bool), Markup.WellNamed kind → Formed OneLine block.toList →
      WellFormed (Markup.tagBlock kind block split).toList ∧
        Markup.strip (Markup.tagBlock kind block split) = Markup.strip block ∧
        ((∀ l ∈ Text.splitLines block.toList, Markup.WellNested l) →
          ∀ l ∈ Text.splitLines (Markup.tagBlock kind block true).toList, Markup.WellNested l)) ∧
    ∀ (g : Grammar) (s : ScanState) (ts : List Token), g.filters = [] → g.streamFilters = [] →
      s.tokens = {} → s.outline = none ∨ s.outline = some {} → (∀ t ∈ ts, t.Strippable (g.shownIn s)) →
      Markup.strip (g.tagged (ts.foldl .record s)).1 = String.join (ts.map Token.ownText) := by
  refine ⟨fun text => ⟨?_, ?_⟩, fun a b formed _ => ?_, fun kind block split named formed => ⟨?_, ?_, ?_⟩, ?_⟩
  · simp [Markup.unescape, Markup.escape, Markup.unescapeChars_escapeChars]
  · rw [Markup.escape, String.toList_ofList]
    exact Formed.escapeChars _
  · have front := formed.telling b.toList
    simp [Markup.strip, front]
  · exact (Markup.formed_tagBlock named formed split).wellFormed
  · exact Markup.strip_of_telling (Markup.telling_tagBlock (Markup.free_of_wellNamed named).2 formed split)
  · exact Markup.wellNested_lines named
  · intro g s ts unfiltered streams unrecorded tree each
    have unopened : s.Unopened := tree.imp_right fun empty => ⟨[], by simpa using empty⟩
    have nothing : (g.tagged s).1 = "" := by
      rcases tree with flat | empty
      · simp [Grammar.tagged, Grammar.renderTokens_of_unfiltered unfiltered streams, TokenStream.toList, flat, unrecorded]
      · rw [← Outline.addAll_nil (o := {})] at empty
        simp only [Grammar.tagged, empty, Outline.collapse_addAll, Node.renderAll]
    have whole := telling_tagged unfiltered streams unopened each (w := []) (by rw [nothing]; exact .nil)
    have stripped := Markup.strip_of_telling whole
    rwa [List.nil_append, String.ofList_toList] at stripped

/-- A keyword over two lines, markup with tags and an entity that has a kind, and markup without one in which a tag
goes on over a line end. -/
def mixed : List Token :=
  [.raw (some .keyword) "a<b\n&", .markup (some ⟨"K_1"⟩) "<B>x</B>&amp;\n", .markup none "<i\nj>y"]

theorem strip_tagged_mixed :
    Markup.strip ((Grammar.bare "mixed").tagged (mixed.foldl .record {})).1 = "a<b\n&x&\ny" := by
  have nested : Formed OneLine "<B>x</B>&amp;\n".toList :=
    .tag ['B'] (by decide) (by decide) <| .char (by decide) <| .tag ['/', 'B'] (by decide) (by decide) <|
      .entity ['a', 'm', 'p'] (by decide) <| .char (by decide) .nil
  have folded : WellFormed "<i\nj>y".toList :=
    .tag ['i', '\n', 'j'] (by decide) trivial <| .char (by decide) .nil
  have each : ∀ t ∈ mixed, t.Strippable ((Grammar.bare "mixed").shownIn {}) := by
    simp only [mixed, List.forall_mem_cons]
    refine ⟨⟨fun no => (by cases no), ?_⟩, ⟨fun _ => nested.wellFormed, ?_⟩, ⟨fun _ => folded, ?_⟩, by simp⟩
    · rintro kind ⟨⟩
      exact ⟨by decide, fun no => (by cases no)⟩
    · rintro kind ⟨⟩
      exact ⟨by decide, fun _ => nested⟩
    · rintro kind ⟨⟩
  have stripped := strip_inverts_rendering.2.2.2 (.bare "mixed") {} mixed rfl rfl rfl (.inl rfl) each
  rw [stripped]
  decide +kernel

/-- The name of a kind may close the tag that it stands in, and a tag of the markup that goes on over a line end has the
tags around it closed and opened again in its midst. -/
theorem strip_tagged_broken :
    Markup.strip ((Grammar.bare "broken").tagged ([.raw (some ⟨"A>B"⟩) "x"].foldl .record {})).1 ≠ "x" ∧
    WellFormed "<a\nb>".toList ∧ Markup.strip "<a\nb>" = "" ∧
      Markup.strip ((Grammar.bare "broken").tagged ([.markup (some ⟨"K"⟩) "<a\nb>"].foldl .record {})).1 ≠ "" :=
  ⟨by decide +kernel, .tag ['a', '\n', 'b'] (by decide) trivial .nil, by decide +kernel, by decide +kernel⟩

end Gloss
