import Gloss.Language.Backus
import Gloss.Proofs.Scan.Trees

/-!
Backus-Naur form. In both dialects the handlers record all of a match, or its front and leave the cursor behind it, and
the filters mark notes and escapes within leaves. So the tree of any source tells it, whichever dialect it selects and
however its regions are nested or left open, and the source can be read back from the markup.
-/
namespace Gloss.Language.Backus

open Text (Spot Source)
open Markup (Shows WellNamed Nests escapeChars)

/-- The kinds of leaves in both dialects. -/
def leaves : List Kind := [.comment, .value, .string, .operator, .ident, .keyword, .userFunction]

/-- The kinds of regions. -/
def areas : List Kind := [optionKind, repetition, group, special]

def kinds : NodeKinds where
  leaf kind := kind ∈ leaves
  region kind := kind ∈ areas

section Filters

/-- What the filters of both dialects are checked for: what there is for the kinds of leaves, and nothing for those of
regions, which are shown under no kind or under their own. -/
structure Dialect (g : Grammar) : Prop where
  named : g.Named
  comment : g.filtersFor .comment = [⟨some "comment-note", .comment, fun _ => Filter.commentNote⟩]
  string : g.filtersFor .string = [⟨some "string-escape", .string, fun _ => Filter.stringEscapes⟩]
  ident : g.filtersFor .ident = [⟨some "map-ident", .ident, Filter.mapIdent⟩,
    ⟨some "user-defs", .ident, Filter.userDefs⟩, ⟨some "clean-ident", .ident, Filter.cleanIdent⟩]
  plain : ∀ kind ∈ leaves ++ areas, kind ∉ Filter.filteredKinds → g.filtersFor kind = []
  shown : ∀ kind ∈ leaves ++ areas, ∀ k, g.displayKind kind = some k → WellNamed k

variable {g : Grammar} {ctx : FilterContext}

/-- A leaf shows its text and a region what is in it. -/
theorem Dialect.wrapped (dialect : Dialect g) (named : ctx.Named) : kinds.Wrapped (g.wrapNode ctx) := by
  constructor
  · intro kind leaf text
    simp only [Grammar.wrapNode]
    have escaped : (Markup.escape text).toList = escapeChars text.toList := by rw [Markup.escape, String.toList_ofList]
    have tagless : '<' ∉ (Markup.escapeToken (.markup (g.displayKind kind) (Markup.escape text))).text.toList := by
      show '<' ∉ (Markup.escape text).toList
      rw [escaped]
      exact Markup.not_mem_escapeChars (.inl rfl) _
    have marked (Fit : List Char → Prop) :
        (Token.markup (g.displayKind kind) (Markup.escape text)).Marked Fit (escapeChars text.toList) := by
      refine Token.marked_markup rfl ?_
      show Nests Fit (Markup.escape text).toList _
      rw [escaped]
      exact .escapeChars _
    have wellNamed : ∀ u : Token, u.kind = (Token.markup (g.displayKind kind) (Markup.escape text)).kind → u.Named :=
      fun u same k eq => dialect.shown kind (List.mem_append_left _ leaf) k (same.symm.trans eq)
    generalize Token.markup (g.displayKind kind) (Markup.escape text) = t at tagless marked wellNamed ⊢
    by_cases isComment : kind = .comment
    · rw [isComment, dialect.comment, List.foldl_cons, List.foldl_nil]
      exact (Filter.commentNote_marked (marked _) tagless).shown.render (wellNamed _ (Filter.commentNote_kind t))
    by_cases isString : kind = .string
    · rw [isString, dialect.string, List.foldl_cons, List.foldl_nil]
      exact (Filter.stringEscapes_marked (marked _) tagless).shown.render (wellNamed _ (Filter.stringEscapes_kind t))
    by_cases isIdent : kind = .ident
    · rw [isIdent, dialect.ident, List.foldl_cons, List.foldl_cons, List.foldl_cons, List.foldl_nil]
      have mapped := Filter.mapIdent_recast named t
      obtain ⟨sameText, sameEscaped, defined⟩ := Filter.userDefs_same named (mapped.named (wellNamed t rfl))
      have clean := Filter.cleanIdent_recast ctx (Filter.userDefs ctx (Filter.mapIdent ctx t))
      refine (((marked Markup.OneLine).of_eq ?_ ?_).shown).render (clean.named defined)
      · rw [clean.text, sameText, mapped.text]
      · rw [clean.escaped, sameEscaped, mapped.escaped]
    · have other : kind ∉ Filter.filteredKinds := by
        simp only [kinds, leaves, List.mem_cons, List.not_mem_nil, or_false] at leaf
        simp only [isComment, isString, isIdent, false_or] at leaf
        rcases leaf with rfl | rfl | rfl | rfl <;> decide
      rw [dialect.plain kind (List.mem_append_left _ leaf) other]
      exact (marked Markup.OneLine).shown.render (wellNamed t rfl)
  · intro kind region markup shown inside
    have other : ∀ kind ∈ areas, kind ∉ Filter.filteredKinds := by decide
    have listed : kind ∈ leaves ++ areas := List.mem_append_right _ region
    simp only [Grammar.wrapNode]
    rw [dialect.plain kind listed (other kind region)]
    exact Token.Shown.render (Token.shown_markup rfl inside) fun k eq => dialect.shown kind listed k eq

theorem strict_dialect : Dialect strict := by
  have shown : ∀ kind ∈ leaves ++ areas, WellNamed kind := by decide
  refine ⟨⟨by decide +kernel, by decide +kernel⟩, rfl, rfl, rfl, by decide +kernel, ?_⟩
  rintro kind listed _ ⟨⟩
  exact shown kind listed

theorem extended_dialect : Dialect extended := by
  have shown : ∀ kind ∈ leaves ++ areas, (extended.displayKind kind).all fun k => decide (WellNamed k) := by
    decide +kernel
  refine ⟨⟨by decide +kernel, by decide +kernel⟩, rfl, rfl, rfl, by decide +kernel, ?_⟩
  intro kind listed k eq
  have named := shown kind listed
  rw [eq] at named
  exact of_decide_eq_true named

end Filters

section Handlers

/-- Does the expression stand for texts between two characters of one byte each? -/
def isBracketed : Regex → Bool
  | .seq (.look _) r => isBracketed r
  | .seq (.text [o]) (.seq _ (.text [c])) => o.utf8Size == 1 && c.utf8Size == 1
  | _ => false

theorem reads_of_isBracketed {r : Regex} (shape : isBracketed r) {a b : Spot} {m mt : Regex.Marks}
    (h : r.Matches a m b mt) : ∃ (o c : Char) (w : List Char) (u v : Spot), o.utf8Size = 1 ∧ c.utf8Size = 1 ∧
      Spot.Reads a [o] u ∧ Spot.Reads u w v ∧ Spot.Reads v [c] b := by
  induction r generalizing a m with
  | seq first second _ ih =>
    unfold isBracketed at shape
    split at shape
    · next condition r eq =>
      cases eq
      obtain ⟨u, mu, ⟨_, rfl, rfl⟩, rest⟩ := h
      exact ih shape rest
    · next o body c eq =>
      cases eq
      simp only [Bool.and_eq_true, beq_iff_eq] at shape
      obtain ⟨u, mu, ⟨opens, _⟩, v, mv, inner, closes, _⟩ := h
      obtain ⟨w, reads⟩ := inner.reads
      exact ⟨o, c, w, u, v, shape.1, shape.2, opens, reads, closes⟩
    · cases shape
  | _ => cases shape

/-- A name in brackets is recorded in three parts. -/
theorem bracketed_passes {p : Pattern} {inner : Kind} (shape : isBracketed p.parsed.regex) (leaf : kinds.leaf inner) :
    (bracketed inner).Passes p fun src s => TreeRecorded kinds src s.pos s := by
  intro src s m a b marks occurs here h
  obtain ⟨o, c, w, u, v, one, one', opens, reads, closes⟩ := reads_of_isBracketed shape occurs.covers
  have start_ := occurs.start
  have stop_ := occurs.stop
  have posU := opens.pos
  have posV := reads.pos_le
  have posB := closes.pos
  simp only [Text.byteSize_cons, Text.byteSize_nil, one, one', Nat.add_zero] at posU posB
  have insideU := occurs.inside.reads opens
  have first : m.start + 1 = u.pos := by omega
  have last : m.stop - 1 = v.pos := by omega
  simp only [bracketed, first, last]
  rw [← here] at h
  refine h.yields_recordSlice (by simp) (Source.isBoundary_of_in insideU) (by omega) ?_
  intro s₁ h₁ cursor₁ regions₁
  refine h₁.yields_recordSlice (by rintro _ ⟨⟩; exact leaf) (Source.isBoundary_of_in (insideU.reads reads)) posV ?_
  intro s₂ h₂ cursor₂ regions₂
  refine h₂.yields_recordSlice (by simp) occurs.spans.stop (by omega) ?_
  intro s₃ h₃ cursor₃ regions₃
  refine yields_setPos h₃.sound occurs.spans.stop ?_
  intro d sound there
  refine ⟨h₃.moveTo sound there, ?_, regions₃.trans (regions₂.trans regions₁)⟩
  show s.pos < d.pos
  omega

/-- Does the expression stand for three groups and something behind them, with some text in the second? -/
def isRuleHead : Regex → Bool
  | .seq (.look _) (.seq (.group 1 first) (.seq (.group 2 second) (.seq (.group 3 third) rest))) =>
    first.groupless && second.groupless && second.consumes && third.groupless && rest.groupless
  | _ => false

theorem groups_of_isRuleHead {p : Pattern} (shape : isRuleHead p.parsed.regex) {src : Source} {m : Match} {a b : Spot}
    {marks : Regex.Marks} (occurs : p.Occurs src m a b marks) :
    ∃ (u v : Spot) (indent name : List Char), Spot.Reads a indent u ∧ Spot.Reads u name v ∧ u.pos < v.pos ∧
      m.groupText src 1 = String.ofList indent ∧ m.groupText src 2 = String.ofList name := by
  obtain ⟨inside, reports, rfl⟩ := occurs
  have covers := reports.covers
  rw [Pattern.Covers] at covers
  generalize eq : p.parsed.regex = r at shape covers
  unfold isRuleHead at shape
  split at shape
  · next condition first second third rest =>
    simp only [Bool.and_eq_true] at shape
    obtain ⟨⟨⟨⟨plain₁, plain₂⟩, consumes⟩, plain₃⟩, plainRest⟩ := shape
    obtain ⟨_, _, ⟨_, rfl, rfl⟩, u, _, ⟨m₁, matched₁, rfl⟩, v, _, ⟨m₂, matched₂, rfl⟩, x, _, ⟨m₃, matched₃, rfl⟩,
      behind⟩ := covers
    obtain rfl := matched₁.marks_eq plain₁
    obtain rfl := matched₂.marks_eq plain₂
    obtain rfl := matched₃.marks_eq plain₃
    obtain rfl := behind.marks_eq plainRest
    obtain ⟨indent, readsIndent⟩ := matched₁.reads
    obtain ⟨name, readsName⟩ := matched₂.reads
    have count : 2 < p.groupCount + 1 := by
      simp only [Pattern.groupCount, eq, Regex.lastGroup]
      omega
    refine ⟨u, v, indent, name, readsIndent, readsName, matched₂.consumes consumes, ?_, ?_⟩
    · exact Pattern.groupText_toMatch (by omega) rfl rfl inside readsIndent
    · exact Pattern.groupText_toMatch (by omega) rfl rfl (inside.reads readsIndent) readsName
  · cases shape

/-- Of the head of a rule the name and what is in front of it are recorded. -/
theorem ruleHead_passes {p : Pattern} (shape : isRuleHead p.parsed.regex) :
    ruleHead.Passes p fun src s => TreeRecorded kinds src s.pos s := by
  intro src s m a b marks occurs here h
  obtain ⟨u, v, indent, name, readsIndent, readsName, some_, group₁, group₂⟩ := groups_of_isRuleHead shape occurs
  have start_ := occurs.start
  have posU := readsIndent.pos
  have posV := readsName.pos
  have insideU := occurs.inside.reads readsIndent
  have insideV := insideU.reads readsName
  have slice₁ : src.slice s.pos u.pos = String.ofList indent := by
    rw [← here, start_]
    exact Source.slice_reads occurs.inside readsIndent
  have slice₂ : src.slice u.pos v.pos = String.ofList name := Source.slice_reads insideU readsName
  have leaf : ∀ k, some Kind.userFunction = some k → kinds.leaf k := by
    rintro _ ⟨⟩
    show Kind.userFunction ∈ leaves
    decide
  simp only [ruleHead]
  refine yields_bind.mpr (yields_ofCursor.mpr (yields_bind.mpr (yields_ofCursor.mpr ?_)))
  rw [h.sound.source, group₁, group₂]
  have whole := (h.recordPlain (Source.isBoundary_of_in insideU) (by omega)).record leaf
    (Source.isBoundary_of_in insideV) (Nat.le_of_lt some_)
  rw [slice₁, slice₂] at whole
  refine yields_bind.mpr (yields_modify.mpr (yields_bind.mpr (yields_modify.mpr ?_)))
  -- The name may be defined already, as something else.
  have defined := whole.define (String.ofList name) (show WellNamed .value by decide)
  refine yields_bind.mpr (yields_modify.mpr ?_)
  have last : m.start + (String.ofList indent).utf8ByteSize + (String.ofList name).utf8ByteSize = v.pos := by
    rw [Text.utf8ByteSize_ofList, Text.utf8ByteSize_ofList]
    omega
  rw [last]
  refine yields_setPos defined.sound (Source.isBoundary_of_in insideV) ?_
  intro c sound there
  refine ⟨defined.moveTo sound there, ?_, by simp⟩
  show s.pos < c.pos
  omega

end Handlers

section Grammars

/-- What the entries of the strict dialect are checked for. -/
theorem strict_fine : ∀ e ∈ strict.patterns.entries, e.pattern.parsed.regex.consumes ∧
    (e.kind = head ∨ e.kind = headBrace ∨ e.kind = brace → isBracketed e.pattern.parsed.regex) ∧
    (e.kind ∈ leaves ∨ e.kind = head ∨ e.kind = headBrace ∨ e.kind = brace) ∧ e.close.isNone := by
  decide +kernel

/-- What the entries of the extended dialect are checked for. -/
theorem extended_fine : ∀ e ∈ extended.patterns.entries, e.pattern.parsed.regex.consumes ∧
    (e.kind = rule → isRuleHead e.pattern.parsed.regex) ∧
    (e.close = none → e.kind ∈ leaves ∨ e.kind = rule) ∧ (e.close.isSome → e.kind ∈ areas) := by
  decide +kernel

theorem strict_handlers : strict.handlers =
    [(brace, bracketed .value), (headBrace, bracketed .keyword), (head, bracketed .keyword)] := rfl

theorem extended_handlers : extended.handlers = [(rule, ruleHead)] := rfl

theorem strict_grows : strict.Grows kinds := by
  have handled : ∀ kind, kind = head ∨ kind = headBrace ∨ kind = brace → strict.handlers.get? kind ≠ none := by
    rintro kind (rfl | rfl | rfl) <;> exact nofun
  refine ⟨fun e member => (strict_fine e member).1, ?_, ?_, ?_⟩
  · intro e member handler found
    obtain ⟨_, shape, _⟩ := strict_fine e member
    have listed := Keyed.mem_of_get? found
    rw [strict_handlers] at listed
    simp only [List.mem_cons, Prod.mk.injEq, List.not_mem_nil, or_false] at listed
    rcases listed with ⟨kind, rfl⟩ | ⟨kind, rfl⟩ | ⟨kind, rfl⟩
    · exact bracketed_passes (shape (.inr (.inr kind))) (show Kind.value ∈ leaves by decide)
    · exact bracketed_passes (shape (.inr (.inl kind))) (show Kind.keyword ∈ leaves by decide)
    · exact bracketed_passes (shape (.inl kind)) (show Kind.keyword ∈ leaves by decide)
  · intro e member plain _
    obtain ⟨_, _, leaf | special, _⟩ := strict_fine e member
    · exact leaf
    · exact (handled e.kind special plain).elim
  · intro e member _ closes
    obtain ⟨_, _, _, none_⟩ := strict_fine e member
    rw [Option.isNone_iff_eq_none.mp none_] at closes
    cases closes

theorem extended_grows : extended.Grows kinds := by
  refine ⟨fun e member => (extended_fine e member).1, ?_, ?_, ?_⟩
  · intro e member handler found
    have listed := Keyed.mem_of_get? found
    rw [extended_handlers, List.mem_singleton] at listed
    obtain ⟨kind, rfl⟩ := Prod.mk.inj listed
    exact ruleHead_passes ((extended_fine e member).2.1 kind)
  · intro e member plain none_
    rcases (extended_fine e member).2.2.1 none_ with leaf | special
    · exact leaf
    · rw [special] at plain
      cases plain
  · exact fun e member _ closes => (extended_fine e member).2.2.2 closes

end Grammars

section Scanner

variable {x : BackusScanner}

@[simp] theorem BackusScanner.grammar_withState (s : ScanState) : (x.withState s).grammar = x.grammar := by
  simp only [BackusScanner.withState, BackusScanner.grammar]
  split <;> simp_all

@[simp] theorem BackusScanner.state_withState (s : ScanState) : (x.withState s).state = s := by
  simp only [BackusScanner.withState, BackusScanner.state]
  split <;> simp_all

instance : LawfulScanner BackusScanner :=
  ⟨fun _ s => BackusScanner.state_withState s, fun _ s => BackusScanner.grammar_withState s, fun _ _ => rfl⟩

/-- Scanning the source of a text with the dialect that it selects, and rendering the tree. -/
theorem yields_highlight {text : String} {s : ScanState} (tree : s.outline.isSome)
    (state : (x.setSource (.ofString text)).state = s.setSource (.ofString text))
    (dialect : Dialect (x.setSource (.ofString text)).grammar)
    (grows : (x.setSource (.ofString text)).grammar.Grows kinds) :
    Yields (Scanner.highlight text : EStateM ScanError BackusScanner String) x
      (fun out y => Markup.strip out = text ∧ (Scanner.state y).depth = 0 ∧
        Scanner.pos y = (Source.ofString text).size) fun _ _ => False := by
  simp only [Scanner.highlight]
  refine yields_bind.mpr (yields_modify.mpr (yields_bind.mpr (yields_zoom.mpr ?_)))
  show Yields (Nested.run (x.setSource (.ofString text)).grammar) (x.setSource (.ofString text)).state _ _
  generalize eq : x.setSource (.ofString text) = y at state dialect grows
  rw [state]
  refine Nested.yields_run_grows grows (TreeRecorded.nothing (.ofString text) s tree) ?_
  intro s' ns ended closed outline told defs
  refine yields_modifyGet.mpr ?_
  obtain ⟨strips, rest⟩ :=
    Grammar.tagged_tree outline told (dialect.wrapped (dialect.named.context defs))
  simp only [Scanner.tagged, Scanner.grammar, Scanner.state, Scanner.withState, Scanner.setSource, Scanner.pos, eq,
    BackusScanner.grammar_withState, BackusScanner.state_withState, rest]
  refine ⟨?_, ?_, ended⟩
  · rw [strips, Source.chars_ofString, String.ofList_toList]
  · show s'.regions.length = 0
    rw [closed, List.length_nil]

end Scanner

/-- Any text can be highlighted, whatever the scanner did before and whichever dialect it has. The text can be read back
from the markup, no region is open at the end, and the cursor is at the end. -/
theorem highlight_keeps (isStrict : Bool) (s s' : ScanState) (o o' : Outline) (text : String) :
    ∃ (out : String) (y : BackusScanner),
      Scanner.highlight text ({
        isStrict := isStrict
        strictState := { s with outline := some o }
        extendedState := { s' with outline := some o' } } : BackusScanner) = .ok out y ∧
      Markup.strip out = text ∧ (Scanner.state y).depth = 0 ∧ Scanner.pos y = (Source.ofString text).size := by
  refine Yields.succeeds ?_
  cases chosen : strictMark.isMatch (Source.ofString text).text with
  | true =>
    refine yields_highlight (s := { s with outline := some o }) rfl ?_ ?_ ?_ <;>
      simp only [BackusScanner.setSource, BackusScanner.withState, BackusScanner.state, BackusScanner.grammar, chosen,
        if_true]
    · exact strict_dialect
    · exact strict_grows
  | false =>
    refine yields_highlight (s := { s' with outline := some o' }) rfl ?_ ?_ ?_ <;>
      simp only [BackusScanner.setSource, BackusScanner.withState, BackusScanner.state, BackusScanner.grammar, chosen,
        Bool.false_eq_true, if_false]
    · exact extended_dialect
    · exact extended_grows

end Gloss.Language.Backus
