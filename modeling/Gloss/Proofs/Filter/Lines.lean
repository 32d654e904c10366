import Gloss.Proofs.Scan.Handover

/-!
The markup of recorded text. With the usual filters, tokens of text are rendered as markup that shows the texts, and
each line of it is nested on its own: the filters and the tags of the tokens open no element on one line that is
closed on another.
-/
namespace Gloss

open Markup (Shows WellNamed Nests OneLine escapeChars)
open Text (Source)

namespace TokenStream

theorem toList_push (s : TokenStream) (t : Token) :
    (s.push t).toList = s.toList ++ if t.text.isEmpty then [] else [t] := by
  simp only [push]
  split <;> simp [toList]

/-- Recording a list of tokens leaves out those without text. -/
theorem toList_ofList (ts : List Token) : (ofList ts).toList = ts.filter (!·.text.isEmpty) := by
  have each : ∀ s : TokenStream, (ts.foldl push s).toList = s.toList ++ ts.filter (!·.text.isEmpty) := by
    induction ts with
    | nil => simp
    | cons t ts ih =>
      intro s
      rw [List.foldl_cons, ih, toList_push, List.filter_cons]
      cases t.text.isEmpty <;> simp
  simpa [ofList, toList] using each {}

end TokenStream

theorem spelling_filter (ts : List Token) : spelling (ts.filter (!·.text.isEmpty)) = spelling ts := by
  induction ts with
  | nil => rfl
  | cons t ts ih =>
    rw [List.filter_cons]
    split
    · simpa [spelling] using ih
    · next empty =>
      have none_ : t.text.toList = [] := by simpa using empty
      simpa [spelling, none_] using ih

/-- Markup whose elements are on one line each, and which shows an escaped text, can be read back, and each line of
it is nested on its own. -/
theorem Markup.Nests.reads {out : String} {w : List Char} (h : Nests OneLine out.toList (Markup.escapeChars w)) :
    Markup.strip out = String.ofList w ∧ ∀ line ∈ Text.splitLines out.toList, Markup.Nested line := by
  constructor
  · rw [Markup.strip, h.shows.stripChars, Markup.unescapeChars_escapeChars]
  · obtain ⟨line, lines, eq, each⟩ := h.lines
    rw [eq]
    exact each

/-- Filters that put each of their elements on one line when they run over a token of text. -/
def Filter.Lines (ctx : FilterContext) (filters : List TokenFilter) : Prop :=
  ∀ (kind : Kind) (t : Token), t.kind = some kind → t.escaped = false → t.Named →
    ((filters.filter (·.kind == kind)).foldl (fun t f => f.apply ctx t) t).Marked OneLine (escapeChars t.text.toList) ∧
      ((filters.filter (·.kind == kind)).foldl (fun t f => f.apply ctx t) t).Named

namespace Filter.Lines

variable {ctx : FilterContext}

theorem withFilters (named : ctx.Named) (name : String) : Filter.Lines ctx (Grammar.withFilters name).filters :=
  fun _ _ isKind raw wellNamed => Filter.withFilters_marked named name isKind raw wellNamed

/-- One more filter behind the usual ones, for a kind that these leave alone. -/
theorem withFilters_concat (named : ctx.Named) (name : String) {f : TokenFilter} (other : f.kind ∉ Filter.filteredKinds)
    (each : ∀ t : Token, t.escaped = false → t.Named →
      (f.apply ctx t).Marked OneLine (escapeChars t.text.toList) ∧ (f.apply ctx t).Named) :
    Filter.Lines ctx ((Grammar.withFilters name).filters ++ [f]) := by
  intro kind t isKind raw wellNamed
  rw [List.filter_append, List.foldl_append]
  by_cases same : f.kind = kind
  · subst same
    have only : [f].filter (·.kind == f.kind) = [f] := by simp
    rw [Filter.withFilters_other other, only]
    exact each t raw wellNamed
  · have none_ : [f].filter (·.kind == kind) = [] := by simp [same]
    rw [none_]
    exact Filter.withFilters_marked named name isKind raw wellNamed

theorem keeps {filters : List TokenFilter} (lines : Filter.Lines ctx filters) : Filter.Keeps ctx filters := by
  intro kind t x isKind raw shown wellNamed
  obtain ⟨marked, still⟩ := lines kind t isKind raw wellNamed
  rw [shown.eq_of_raw raw]
  exact ⟨marked.shown, still⟩

end Filter.Lines

namespace Grammar

variable {g : Grammar} {ctx : FilterContext}

/-- The usual filters, whatever else the grammar has. -/
structure Usual (g : Grammar) : Prop where
  tokens : g.filters = (withFilters g.name).filters
  stream : g.streamFilters = (withFilters g.name).streamFilters

/-- A token of text is rendered with each of its elements on one line. -/
theorem filterToken_nests (lines : Filter.Lines ctx g.filters) {t u : Token} (raw : t.escaped = false)
    (wellNamed : t.Named) (recast : t.Recast u) :
    Nests OneLine (Markup.renderToken (g.filterToken ctx u)).toList (escapeChars t.text.toList) := by
  have rawU : u.escaped = false := recast.escaped.trans raw
  have namedU := recast.named wellNamed
  rw [← recast.text]
  simp only [Grammar.filterToken]
  cases eq : u.kind with
  | none => exact (Token.marked_of_raw rawU).render namedU
  | some kind =>
    obtain ⟨marked, still⟩ := lines kind u eq rawU namedU
    exact marked.render still

theorem Usual.filterToken (usual : g.Usual) (named : ctx.Named) {t u : Token} (raw : t.escaped = false)
    (wellNamed : t.Named) (recast : t.Recast u) :
    Nests OneLine (Markup.renderToken (g.filterToken ctx u)).toList (escapeChars t.text.toList) := by
  have lines : Filter.Lines ctx g.filters := by
    rw [usual.tokens]
    exact Filter.Lines.withFilters named g.name
  exact filterToken_nests lines raw wellNamed recast

/-- Tokens are rendered with each of their elements on one line if every one of them is. -/
theorem renderTokens_nests {ts : List Token} (renders : g.Renders ctx)
    (each : ∀ t ∈ ts, ∀ u, t.Recast u →
      Nests OneLine (Markup.renderToken (g.filterToken ctx u)).toList (escapeChars t.text.toList)) :
    Nests OneLine (g.renderTokens ctx ts).toList (escapeChars (spelling ts)) := by
  have recasts := renders.stream ts
  simp only [Grammar.renderTokens, String.toList_join, List.flatMap_map]
  generalize g.streamFilters.foldl (fun ts f => f.apply ctx ts) ts = us at recasts
  induction recasts with
  | nil => exact .nil
  | @cons t u ts us recast _ ih =>
    have first := each t List.mem_cons_self u recast
    have more := ih fun t member => each t (List.mem_cons_of_mem _ member)
    simpa [spelling] using first.append more

theorem renders_of_lines (named : ctx.Named) (stream : g.streamFilters = (withFilters g.name).streamFilters)
    (lines : Filter.Lines ctx g.filters) : g.Renders ctx := by
  have usual : (withFilters g.name).Renders ctx := renders_of_filters named g.name rfl rfl
  refine ⟨?_, lines.keeps⟩
  rw [stream]
  exact usual.stream

/-- What is recorded from the start of a source is rendered with each element on one line if every token of it is. -/
theorem tagged_nests {src : Source} {stop : Nat} {s : ScanState}
    (recorded : Recorded src Token.IsRaw ⟨0, []⟩ stop s) (renders : g.Renders (g.context s))
    (each : ∀ (t u : Token) (a c : List Char), src.between 0 stop = a ++ t.text.toList ++ c → t.escaped = false →
      t.Named → t.Recast u →
      Nests OneLine (Markup.renderToken (g.filterToken (g.context s) u)).toList (escapeChars t.text.toList)) :
    Nests OneLine (g.tagged s).1.toList (escapeChars (src.between 0 stop)) := by
  obtain ⟨added, latest, spells⟩ := recorded.spells
  rw [List.append_nil] at latest
  subst latest
  have tokens : spelling s.tokens.toList = src.between 0 stop := spells.spelling_eq
  rw [← tokens]
  simp only [Grammar.tagged, recorded.flat]
  refine renderTokens_nests renders fun t member u recast => ?_
  obtain ⟨raw, wellNamed⟩ := spells.each t (by simpa [TokenStream.toList] using member)
  obtain ⟨a, c, part⟩ := spelling_of_mem member
  exact each t u a c (tokens.symm.trans part) raw wellNamed recast

/-- With the usual filters, rendered text can be read back, and each line of its markup is nested on its own. -/
theorem tagged_lines (g : Grammar) (s : ScanState) (ts : List Token) (usual : g.Usual) (named : g.Named)
    (defs : ∀ name kind, s.userDefs.get? name = some kind → WellNamed kind)
    (raw : ∀ t ∈ ts, t.escaped = false ∧ ∀ kind, t.kind = some kind → WellNamed kind) :
    Markup.strip (g.tagged { s with tokens := .ofList ts, outline := none }).1 = String.join (ts.map (·.text)) ∧
      ∀ line ∈ Text.splitLines (g.tagged { s with tokens := .ofList ts, outline := none }).1.toList,
        Markup.Nested line := by
  have context : (g.context { s with tokens := .ofList ts, outline := none }).Named := named.context defs
  have recorded : ∀ t ∈ (TokenStream.ofList ts).toList, t.escaped = false ∧ t.Named := by
    intro t member
    rw [TokenStream.toList_ofList] at member
    exact raw t (List.mem_filter.mp member).1
  have nests := renderTokens_nests (renders_of_filters context g.name usual.stream usual.tokens)
    fun t member u recast => usual.filterToken context (recorded t member).1 (recorded t member).2 recast
  rw [TokenStream.toList_ofList, spelling_filter, ← TokenStream.toList_ofList] at nests
  constructor
  · apply String.toList_injective
    rw [toList_join_texts, Markup.strip, String.toList_ofList]
    exact nests.shows.stripChars.trans (Markup.unescapeChars_escapeChars _)
  · obtain ⟨line, lines, eq, each⟩ := nests.lines
    intro l member
    refine each l ?_
    rw [← eq]
    exact member

/-- A note in a comment that documents a tag, and a string and a regular expression with escapes. -/
theorem tagged_lines_notes :
    Markup.strip (((withFilters "c").wordsOf .keyword ["if"] |>.showAs .numeric none).tagged
        { userDefs := [("f", .function)],
          tokens := .ofList [.raw (some .ident) "f", .raw (some .comment) "/** @see TODO: \x7bx\x7d\n */",
            .raw (some .string) "\"\\n<\n\"", .raw (some .regex) "/(?<a>\\[)#\n/x", .raw none "<"] }).1 =
        "f/** @see TODO: \x7bx\x7d\n */\"\\n<\n\"/(?<a>\\[)#\n/x<" ∧
      ∀ line ∈ Text.splitLines (((withFilters "c").wordsOf .keyword ["if"] |>.showAs .numeric none).tagged
        { userDefs := [("f", .function)],
          tokens := .ofList [.raw (some .ident) "f", .raw (some .comment) "/** @see TODO: \x7bx\x7d\n */",
            .raw (some .string) "\"\\n<\n\"", .raw (some .regex) "/(?<a>\\[)#\n/x", .raw none "<"] }).1.toList,
        Markup.Nested line := by
  refine tagged_lines ((withFilters "c").wordsOf .keyword ["if"] |>.showAs .numeric none)
    { userDefs := [("f", .function)] }
    [.raw (some .ident) "f", .raw (some .comment) "/** @see TODO: \x7bx\x7d\n */",
      .raw (some .string) "\"\\n<\n\"", .raw (some .regex) "/(?<a>\\[)#\n/x", .raw none "<"] ⟨rfl, rfl⟩ ?_ ?_ ?_
  · exact ((named_withFilters "c").wordsOf .keyword ["if"] (by decide)).showAs .numeric none (by decide)
  · intro name kind found
    obtain ⟨e, member, rfl⟩ : ∃ e ∈ [("f", Kind.function)], e.2 = kind := ⟨_, Keyed.mem_of_get? found, rfl⟩
    rw [List.mem_singleton.mp member]
    decide
  · decide

end Grammar

end Gloss
