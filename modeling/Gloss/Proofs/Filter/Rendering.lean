import Gloss.Proofs.Filter.Shown

/-!
Rendering recorded tokens. Tokens that are recorded one after another spell a text; filters change kinds and
put tags into tokens, and what is rendered in the end shows the text that was spelled.
-/
namespace Gloss

open Markup (Shows WellNamed escapeChars)

/-- Recorded tokens, latest first, that spell a text: each shows a part of it and is of an allowed form. -/
inductive Spells (Allowed : Token → Prop) : List Token → List Char → Prop where
  | nil : Spells Allowed [] []
  | push {latest : List Token} {t : Token} {a b : List Char} (more : Spells Allowed latest a)
      (allowed : Allowed t) (shown : t.Shown (escapeChars b)) (named : t.Named) :
      Spells Allowed (t :: latest) (a ++ b)

/-- The kinds that filters may give to tokens can all stand in tags. -/
structure FilterContext.Named (ctx : FilterContext) : Prop where
  words : ∀ word, WellNamed (ctx.words.classify word)
  userDefs : ∀ name kind, ctx.userDefs.get? name = some kind → WellNamed kind
  ruleMap : ∀ kind shown, ctx.ruleMap.get? kind = some (some shown) → WellNamed shown

/-- A token with another kind at most; one without a kind stays so. -/
structure Token.Recast (t u : Token) : Prop where
  text : u.text = t.text
  escaped : u.escaped = t.escaped
  kind : t.kind = none → u.kind = none
  named : t.Named → u.Named

theorem Token.Recast.refl (t : Token) : t.Recast t := ⟨rfl, rfl, id, id⟩

theorem Token.Recast.trans {t u v : Token} (first : t.Recast u) (second : u.Recast v) : t.Recast v :=
  ⟨second.text.trans first.text, second.escaped.trans first.escaped, fun none_ => second.kind (first.kind none_),
    fun named => second.named (first.named named)⟩

theorem Token.Recast.shown {t u : Token} {x : List Char} (h : t.Recast u) (shown : t.Shown x) : u.Shown x :=
  shown.of_eq h.text h.escaped

/-- Lists whose tokens are related one by one. -/
inductive Aligned (R : Token → Token → Prop) : List Token → List Token → Prop where
  | nil : Aligned R [] []
  | cons {t u : Token} {ts us : List Token} (head : R t u) (tail : Aligned R ts us) : Aligned R (t :: ts) (u :: us)

/-- Lists of tokens that differ in kinds at most. -/
abbrev Recasts : List Token → List Token → Prop := Aligned Token.Recast

namespace Aligned

variable {R : Token → Token → Prop}

theorem refl (each : ∀ t, R t t) (ts : List Token) : Aligned R ts ts := by
  induction ts with
  | nil => exact .nil
  | cons t ts ih => exact .cons (each t) ih

theorem trans (each : ∀ t u v, R t u → R u v → R t v) {ts us vs : List Token} (first : Aligned R ts us)
    (second : Aligned R us vs) : Aligned R ts vs := by
  induction first generalizing vs with
  | nil => exact second
  | cons head _ ih =>
    cases second with
    | cons head' tail' => exact .cons (each _ _ _ head head') (ih tail')

theorem append {ts us vs ws : List Token} (first : Aligned R ts us) (second : Aligned R vs ws) :
    Aligned R (ts ++ vs) (us ++ ws) := by
  induction first with
  | nil => exact second
  | cons head _ ih => exact .cons head ih

theorem reverse {ts us : List Token} (h : Aligned R ts us) : Aligned R ts.reverse us.reverse := by
  induction h with
  | nil => exact .nil
  | cons head _ ih =>
    rw [List.reverse_cons, List.reverse_cons]
    exact ih.append (.cons head .nil)

end Aligned

namespace Filter

variable {ctx : FilterContext}

section Stream

variable {R : Token → Token → Prop}

/-- The rule map changes the kinds that it lists. -/
theorem ruleMap_aligned (same : ∀ t, R t t)
    (change : ∀ (t : Token) (kind : Kind) (shown : Option Kind), t.kind = some kind →
      ctx.ruleMap.get? kind = some shown → R t { t with kind := shown }) (ts : List Token) :
    Aligned R ts (ruleMap ctx ts) := by
  induction ts with
  | nil => exact .nil
  | cons t ts ih =>
    simp only [ruleMap, List.map_cons]
    refine .cons ?_ ih
    split
    · next shown eq =>
      obtain ⟨kind, isKind, entry⟩ := Option.bind_eq_some_iff.mp eq
      exact change t kind shown isKind entry
    · exact same t

/-- The filter of members changes identifiers. -/
theorem membersFrom_aligned (same : ∀ t, R t t)
    (change : ∀ t : Token, t.kind = some .ident → R t { t with kind := some .member }) (afterAccess : Bool)
    (ts : List Token) : Aligned R ts (membersFrom afterAccess ts) := by
  induction ts generalizing afterAccess with
  | nil => exact .nil
  | cons t ts ih =>
    refine .cons ?_ (ih _)
    split
    · next selected =>
      simp only [Token.is, Bool.and_eq_true, beq_iff_eq] at selected
      exact change t selected.2
    · exact same t

end Stream

theorem ruleMap_recast (named : ctx.Named) {t : Token} {kind : Kind} {shown : Option Kind} (isKind : t.kind = some kind)
    (entry : ctx.ruleMap.get? kind = some shown) : t.Recast { t with kind := shown } := by
  refine ⟨rfl, rfl, ?_, ?_⟩
  · intro none_
    rw [none_] at isKind
    cases isKind
  · intro _ kind' found
    obtain rfl : shown = some kind' := found
    exact named.ruleMap kind kind' entry

theorem member_recast {t : Token} (isIdent : t.kind = some .ident) : t.Recast { t with kind := some .member } := by
  refine ⟨rfl, rfl, ?_, ?_⟩
  · intro none_
    rw [none_] at isIdent
    cases isIdent
  · intro _ kind found
    cases found
    decide

/-- A filter of identifiers changes kinds at most. -/
theorem mapIdent_recast (named : ctx.Named) (t : Token) : t.Recast (mapIdent ctx t) := by
  simp only [mapIdent]
  split
  · next selected =>
    refine ⟨rfl, rfl, ?_, ?_⟩
    · intro none_
      simp [Token.is, none_] at selected
    · intro _ kind found
      cases found
      exact named.words t.text
  · exact .refl t

/-- A name that the source defines gets the kind of its definition, even if it had none. -/
theorem userDefs_same (named : ctx.Named) {t : Token} (wellNamed : t.Named) :
    (userDefs ctx t).text = t.text ∧ (userDefs ctx t).escaped = t.escaped ∧ (userDefs ctx t).Named := by
  simp only [userDefs]
  split
  · next kind found =>
    refine ⟨rfl, rfl, ?_⟩
    intro k eq
    cases eq
    exact named.userDefs _ _ found
  · exact ⟨rfl, rfl, wellNamed⟩

theorem upperToConstant_recast (ctx : FilterContext) (t : Token) : t.Recast (upperToConstant ctx t) := by
  simp only [upperToConstant]
  split
  · next selected =>
    refine ⟨rfl, rfl, ?_, ?_⟩
    · intro none_
      simp [Token.is, none_] at selected
    · intro _ kind found
      cases found
      decide
  · exact .refl t

theorem cleanIdent_recast (ctx : FilterContext) (t : Token) : t.Recast (cleanIdent ctx t) := by
  simp only [cleanIdent]
  split
  · refine ⟨rfl, rfl, fun _ => rfl, ?_⟩
    intro _ kind found
    cases found
  · exact .refl t

theorem docComment_named {t : Token} (named : t.Named) : (docComment t).Named := by
  simp only [docComment]
  split
  · intro kind found
    cases found
    decide
  · exact named

/-- Running filters of one kind over a token of raw text shows the same. -/
def Keeps (ctx : FilterContext) (filters : List TokenFilter) : Prop :=
  ∀ (kind : Kind) (t : Token) (x : List Char), t.kind = some kind → t.escaped = false → t.Shown x → t.Named →
    ((filters.filter (·.kind == kind)).foldl (fun t f => f.apply ctx t) t).Shown x ∧
      ((filters.filter (·.kind == kind)).foldl (fun t f => f.apply ctx t) t).Named

/-- The kinds that the usual filters are for. -/
def filteredKinds : List Kind := [.ident, .comment, .string, .character, .regex]

theorem withFilters_other {name : String} {kind : Kind} (other : kind ∉ filteredKinds) :
    (Grammar.withFilters name).filters.filter (·.kind == kind) = [] := by
  simp only [filteredKinds, List.mem_cons, List.not_mem_nil, or_false, not_or] at other
  simp [Grammar.withFilters, @eq_comm _ _ kind, other]

/-- The usual filters do not change what is shown, and put their elements on one line each. -/
theorem withFilters_marked (named : ctx.Named) (name : String) {kind : Kind} {t : Token} (isKind : t.kind = some kind)
    (raw : t.escaped = false) (wellNamed : t.Named) :
    let u := ((Grammar.withFilters name).filters.filter (·.kind == kind)).foldl (fun t f => f.apply ctx t) t
    u.Marked Markup.OneLine (escapeChars t.text.toList) ∧ u.Named := by
  have sameKind : ∀ u : Token, u.kind = t.kind → u.Named := by
    intro u same k eq
    exact wellNamed k (same ▸ eq)
  have escapes : (stringEscapes t).Marked Markup.OneLine (escapeChars t.text.toList) :=
    (stringEscapes_marked (Token.marked_of_raw raw) (tagless_of_raw raw)).mono fun _ => oneLine_of_escapeText
  by_cases filtered : kind ∈ filteredKinds
  · simp only [filteredKinds, List.mem_cons, List.not_mem_nil, or_false] at filtered
    rcases filtered with rfl | rfl | rfl | rfl | rfl
    · show (cleanIdent ctx (upperToConstant ctx (userDefs ctx (mapIdent ctx t)))).Marked _ _ ∧
        (cleanIdent ctx (upperToConstant ctx (userDefs ctx (mapIdent ctx t)))).Named
      have mapped := mapIdent_recast named t
      obtain ⟨text, escaped, defined⟩ := userDefs_same named (mapped.named wellNamed)
      have clean := (upperToConstant_recast ctx (userDefs ctx (mapIdent ctx t))).trans (cleanIdent_recast ctx _)
      refine ⟨(Token.marked_of_raw raw).of_eq ?_ ?_, clean.named defined⟩
      · rw [clean.text, text, mapped.text]
      · rw [clean.escaped, escaped, mapped.escaped]
    · show (docComment (commentNote t)).Marked _ _ ∧ (docComment (commentNote t)).Named
      exact ⟨docComment_marked (commentNote_marked (Token.marked_of_raw raw) (tagless_of_raw raw)),
        docComment_named (sameKind _ (commentNote_kind t))⟩
    · exact ⟨escapes, sameKind _ (stringEscapes_kind t)⟩
    · exact ⟨escapes, sameKind _ (stringEscapes_kind t)⟩
    · show (regexParts t).Marked _ _ ∧ (regexParts t).Named
      exact ⟨regexParts_marked raw, sameKind _ (regexParts_kind t)⟩
  · rw [withFilters_other filtered]
    exact ⟨Token.marked_of_raw raw, wellNamed⟩

/-- The usual filters do not change what is shown. -/
theorem withFilters_keeps (named : ctx.Named) (name : String) :
    Keeps ctx (Grammar.withFilters name).filters := by
  intro kind t x isKind raw shown wellNamed
  obtain ⟨marked, still⟩ := withFilters_marked named name isKind raw wellNamed
  rw [shown.eq_of_raw raw]
  exact ⟨marked.shown, still⟩

/-- Filters behind others that show the same of any token. -/
theorem Keeps.append {filters more : List TokenFilter} (h : Keeps ctx filters)
    (each : ∀ f ∈ more, ∀ (t : Token) (x : List Char), t.Shown x → t.Named →
      (f.apply ctx t).Shown x ∧ (f.apply ctx t).Named) : Keeps ctx (filters ++ more) := by
  intro kind t x isKind raw shown named
  rw [List.filter_append, List.foldl_append]
  obtain ⟨first, firstNamed⟩ := h kind t x isKind raw shown named
  generalize (filters.filter (·.kind == kind)).foldl (fun t f => f.apply ctx t) t = u at first firstNamed
  have sublist := List.filter_sublist (p := fun f : TokenFilter => f.kind == kind) (l := more)
  generalize more.filter (·.kind == kind) = left at sublist
  have each' := fun f member => each f (sublist.subset member)
  clear sublist
  induction left generalizing u with
  | nil => exact ⟨first, firstNamed⟩
  | cons f left ih =>
    obtain ⟨next, nextNamed⟩ := each' f List.mem_cons_self u x first firstNamed
    exact ih _ next nextNamed fun g member => each' g (List.mem_cons_of_mem _ member)

end Filter

namespace Grammar

variable {g : Grammar} {ctx : FilterContext}

section Unfiltered

variable (unfiltered : g.filters = [])

include unfiltered

theorem filterToken_of_unfiltered (t : Token) : g.filterToken ctx t = t := by
  cases isKind : t.kind <;> simp [filterToken, filtersFor, unfiltered, isKind]

/-- Without filters a node is put into the tags of its kind and nothing more. -/
theorem wrapNode_of_unfiltered :
    g.wrapNode ctx = fun kind markup => Markup.renderToken (.markup (g.displayKind kind) markup) := by
  funext kind markup
  simp [wrapNode, filtersFor, unfiltered]

theorem renderTokens_of_unfiltered (streams : g.streamFilters = []) (ts : List Token) :
    g.renderTokens ctx ts = String.join (ts.map Markup.renderToken) := by
  simp only [renderTokens, streams, List.foldl_nil, filterToken_of_unfiltered unfiltered]

end Unfiltered

/-- A grammar that renders tokens without a change of what they show: its filters of the stream change kinds at
most, and those of tokens of raw text show the same. -/
structure Renders (g : Grammar) (ctx : FilterContext) : Prop where
  stream : ∀ ts, Recasts ts (g.streamFilters.foldl (fun ts f => f.apply ctx ts) ts)
  tokens : Filter.Keeps ctx g.filters

theorem renders_of_filters (named : ctx.Named) (name : String)
    (stream : g.streamFilters = (withFilters name).streamFilters)
    (tokens : g.filters = (withFilters name).filters) : g.Renders ctx := by
  refine ⟨?_, tokens ▸ Filter.withFilters_keeps named name⟩
  intro ts
  rw [stream]
  have mapped := Filter.ruleMap_aligned .refl (fun t _ _ => Filter.ruleMap_recast named (t := t)) ts
  have members := Filter.membersFrom_aligned .refl (fun t => Filter.member_recast (t := t)) false
    (Filter.ruleMap ctx ts)
  exact Aligned.trans (R := Token.Recast) (fun _ _ _ => .trans) mapped members

theorem renders_bare (name : String) : (bare name).Renders ctx := by
  refine ⟨fun ts => Aligned.refl Token.Recast.refl ts, ?_⟩
  intro kind t x _ _ shown named
  exact ⟨shown, named⟩

/-- A token that is recorded as markup has no kind, or there are no filters to run over it. -/
def Allowed (g : Grammar) (t : Token) : Prop := t.escaped = true → t.kind = none ∨ g.filters = []

theorem Renders.filterToken (h : g.Renders ctx) {t u : Token} {x : List Char} (allowed : g.Allowed t)
    (shown : t.Shown x) (named : t.Named) (recast : t.Recast u) :
    Shows (Markup.renderToken (g.filterToken ctx u)).toList x := by
  have shownU := recast.shown shown
  have namedU := recast.named named
  simp only [Grammar.filterToken]
  cases eq : u.kind with
  | none => exact shownU.render namedU
  | some kind =>
    cases raw : u.escaped with
    | false =>
      obtain ⟨filtered, filteredNamed⟩ := h.tokens kind u x eq raw shownU namedU
      exact filtered.render filteredNamed
    | true =>
      rcases allowed (recast.escaped.symm.trans raw) with none_ | empty
      · rw [recast.kind none_] at eq
        cases eq
      · simp only [filtersFor, empty, List.filter_nil, List.foldl_nil]
        exact shownU.render namedU

/-- Rendered tokens show what they spell. -/
theorem Renders.renderTokens (h : g.Renders ctx) {latest : List Token} {w : List Char}
    (spells : Spells g.Allowed latest w) :
    Shows (g.renderTokens ctx latest.reverse).toList (escapeChars w) := by
  have recasts := h.stream latest.reverse
  simp only [Grammar.renderTokens, String.toList_join, List.flatMap_map]
  generalize g.streamFilters.foldl (fun ts f => f.apply ctx ts) latest.reverse = ts at recasts
  have backwards := recasts.reverse
  rw [List.reverse_reverse] at backwards
  have order : ts = ts.reverse.reverse := by simp
  rw [order]
  clear recasts order
  generalize ts.reverse = us at backwards
  induction spells generalizing us with
  | nil =>
    cases backwards
    exact .nil
  | push _ allowed shown named ih =>
    cases backwards with
    | cons recast rest =>
      have last := h.filterToken allowed shown named recast
      simpa using (ih _ rest).append last

end Grammar

end Gloss
