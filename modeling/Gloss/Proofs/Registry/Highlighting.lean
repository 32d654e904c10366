import Gloss.Highlight
import Gloss.Proofs.Language.Renewed
import Gloss.Proofs.Scan.Handover
import Gloss.Proofs.Text.Newlines

/-!
Highlighting as a whole loses no text. Whatever way a scanner is found, it is one that a language of the registry
makes (`resolve_eq_ok`), so what it renders shows the text if the languages are faithful to theirs; and where no
scanner can be had or the scanner fails, the text is shown as it is, in a tag at most.
-/
namespace Gloss.Registry

open Language.Diff (Lookup)
open Language.Plain (PlainScanner)
open Markup (dropTags escapeChars stripChars unescapeChars)
open Text (Source)

/-- Whenever the scanner highlights a text, the markup shows the text. -/
def Faithful (x : AnyScanner) : Prop := ∀ text out, highlightWith x text = .ok out → Markup.strip out = text

variable {r : Registry} {lookup : Lookup} {code text : String} {options : HighlightOptions} {x : AnyScanner}

/-- Who makes a scanner is a language of the registry. -/
theorem make_eq_ok (h : r.make lookup code = .ok x) : ∃ e ∈ r.entries, e.factory lookup = .ok x := by
  rw [make] at h
  split at h
  · next e found => exact ⟨e, List.mem_of_find?_eq_some found, h⟩
  · cases h

theorem getDefault_eq_ok (h : r.getDefault = .ok x) : ∃ e ∈ r.entries, e.factory r.highlighter = .ok x := by
  rw [getDefault] at h
  split at h
  · exact make_eq_ok h
  · cases h

/-- The scanner for the code, for a guess or for the default language is made by a language of the registry. -/
theorem resolve_eq_ok (h : r.resolve code text options = .ok x) :
    ∃ e ∈ r.entries, e.factory r.highlighter = .ok x := by
  rw [resolve] at h
  split at h
  · split at h
    · exact make_eq_ok h
    · exact getDefault_eq_ok h
  · exact make_eq_ok h

/-- A tag with any name shows nothing, if no angle bracket closes it early. -/
theorem dropTags_tag {name : List Char} (closed : '>' ∉ name) (rest : List Char) :
    dropTags false ('<' :: (name ++ '>' :: rest)) = dropTags false rest := by
  have inside : dropTags true (name ++ '>' :: rest) = dropTags false rest := by
    induction name with
    | nil => simp [dropTags]
    | cons c name ih =>
      simp only [List.mem_cons, not_or] at closed
      have other : (c != '>') = true := by simpa using fun eq => closed.1 eq.symm
      simpa [dropTags, other] using ih closed.2
  simpa [dropTags] using inside

/-- The text as it is shows itself, also in a tag. -/
theorem strip_showPlain (tag : ∀ name, options.failureTag = some name → '>' ∉ name.toList) :
    Markup.strip (showPlain text options) = text := by
  have escaped : ∀ rest,
      dropTags false (escapeChars text.toList ++ rest) = escapeChars text.toList ++ dropTags false rest :=
    (Markup.shows_escapeChars text.toList).dropTags
  have shown : dropTags false (showPlain text options).toList = escapeChars text.toList := by
    simp only [showPlain]
    split
    · next name named =>
      have whole : (Markup.openTag name ++ Markup.escape text ++ Markup.closeTag name).toList =
          '<' :: (name.toList ++ '>' :: (escapeChars text.toList ++ '<' :: ('/' :: name.toList ++ '>' :: []))) := by
        simp [Markup.openTag, Markup.closeTag, Markup.escape]
      have closed := tag name named
      rw [whole, dropTags_tag closed, escaped, dropTags_tag (by simpa using closed)]
      simp [dropTags]
    · have whole := escaped []
      rw [Markup.escape, String.toList_ofList]
      simpa [dropTags] using whole
  apply String.toList_injective
  rw [Markup.strip, String.toList_ofList, stripChars, shown, Markup.unescapeChars_escapeChars]

/-- Whatever the code, what is rendered shows the text, with its line ends as the options want them; normalized line
ends are line feeds. -/
theorem highlight_shows_text (r : Registry)
    (faithful : ∀ e ∈ r.entries, ∀ x, e.factory r.highlighter = .ok x → Faithful x)
    (code text : String) (options : HighlightOptions)
    (tag : ∀ name, options.failureTag = some name → '<' ∉ name.toList ∧ '>' ∉ name.toList) :
    Markup.strip (r.highlight code text options) =
        (if options.normalizeNewlines then Text.normalizeNewlines text else text) ∧
      Text.UnifiesLines Text.normalizeNewlines := by
  refine ⟨?_, Text.normalizeNewlines_unifies⟩
  rw [highlight]
  -- Line ends are normalized before all else, so the scanners and the way out see the same text.
  generalize (if options.normalizeNewlines then Text.normalizeNewlines text else text) = text
  split
  · next out ok =>
    cases resolved : r.resolve code text options with
    | error e =>
      rw [resolved] at ok
      cases ok
    | ok x =>
      rw [resolved] at ok
      obtain ⟨e, member, made⟩ := resolve_eq_ok resolved
      exact faithful e member x made text out ok
  · exact strip_showPlain fun name eq => (tag name eq).2

/-- The scanner for plain text is faithful: it records the source in one go. -/
theorem faithful_plain : Faithful (.plain {}) := by
  intro text out ok
  have run : Yields (Scanner.highlight text : EStateM ScanError PlainScanner String) {}
      (fun out _ => Markup.strip out = text) fun _ _ => False := by
    simp only [Scanner.highlight]
    refine yields_bind.mpr (yields_modify.mpr (yields_bind.mpr (yields_zoom.mpr ?_)))
    have blank := ScanState.blank_setSource (s := {}) rfl (.ofString text)
    have begun : Recorded (.ofString text) (Grammar.bare "plain").Allowed ⟨0, []⟩ 0
        (({} : ScanState).setSource (.ofString text)) := blank.recorded fun _ _ escaped => by cases escaped
    refine begun.recordRest (by simp) ?_
    intro s recorded _ _
    refine yields_modifyGet.mpr ?_
    obtain ⟨added, latest, spells⟩ := recorded.spells
    rw [List.append_nil] at latest
    rw [← latest] at spells
    have shows := (spells.tagged recorded.flat (Grammar.renders_bare "plain")).1
    show Markup.strip ((Grammar.bare "plain").tagged s).1 = text
    rw [Markup.strip, shows.stripChars, Markup.unescapeChars_escapeChars, Source.between_whole]
    exact String.ofList_toList
  obtain ⟨out', y, ran, strips⟩ := run.succeeds
  have wraps : AnyScanner.Wraps AnyScanner.plain := {}
  simp only [highlightWith, wraps.highlight, ran] at ok
  cases ok
  exact strips

/-- A code in any case, of a language whose scanner cannot be had: the text is shown in the tag for failures. -/
theorem highlight_shows_text_broken :
    let broken : Entry :=
      { codes := ["broken"], description := "", factory := fun _ => .error (.noProgress "broken" 0) }
    let r : Registry := { entries := [Language.plain, broken], defaultCode := some "plain" }
    let options : HighlightOptions := { failureTag := some "FAILED" }
    (∀ e ∈ r.entries, ∀ x, e.factory r.highlighter = .ok x → Faithful x) ∧
      Markup.strip (r.highlight "BROKEN" "a<\r\n" options) = "a<\n" := by
  intro broken r options
  have faithful : ∀ e ∈ r.entries, ∀ x, e.factory r.highlighter = .ok x → Faithful x := by
    intro e member x made
    simp only [r, List.mem_cons, List.not_mem_nil, or_false] at member
    rcases member with rfl | rfl
    · cases made
      exact faithful_plain
    · cases made
  refine ⟨faithful, ?_⟩
  have shown := (highlight_shows_text r faithful "BROKEN" "a<\r\n" options (by simp [options])).1
  rw [shown]
  decide

end Gloss.Registry
