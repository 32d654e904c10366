import Gloss.Proofs.Language.Html.Runs
import Gloss.Proofs.Scan.Hosted

/-!
Scripts, styles and HTML embedded in markup or in a server language. Whatever a host does between two runs of such
a scanner, a run never fails and covers one segment of the source: up to the end, to the first tag of the server, or
to where the markup around goes on.
-/
namespace Gloss.Language

open Text (Source)
open Script (ScriptScanner)
open Style (StyleScanner)
open Html (HtmlScanner)

variable {e : Embedding} {src : Source}

theorem Script.Closes.not_tag {at_ : Nat} (closes : Script.Closes e src at_) : ¬ src.At "<?" at_ :=
  closes.2.not_tag (by decide +kernel) (n := 7) (by decide +kernel)

theorem Style.Closes.not_tag {at_ : Nat} (closes : Style.Closes e src at_) : ¬ src.At "<?" at_ :=
  closes.2.not_tag (by decide +kernel) (n := 5) (by decide +kernel)

theorem Script.segments {g : Grammar} (suits : Script.Suits g e) (src : Source) :
    Scanner.Segments e src (Script.Closes e src)
      (Scanner.setSource ({ grammar := g, embedding := e } : ScriptScanner) src) := by
  obtain ⟨able, drained⟩ := Script.waits_setSource g e src
  exact (Script.covers suits src).segments (fun _ closes => closes.not_tag) able drained

theorem Style.segments (tag : e.serverTag = "<?") (src : Source) :
    Scanner.Segments e src (Style.Closes e src) (Scanner.setSource ({ embedding := e } : StyleScanner) src) := by
  obtain ⟨able, drained⟩ := Style.waits_setSource tag src
  exact (Style.covers tag src).segments (fun _ closes => closes.not_tag) able drained

theorem Html.rounds (tag : e.serverTag = "<?") (moves : List Nat) :
    ∃ x y, HostCall.runAll (HostCall.rounds moves) (Scanner.setSource (HtmlScanner.ofEmbedding e) src) = .ok () x ∧
      Scanner.main x = .ok () y ∧ Scanner.pos x ≤ Scanner.pos y ∧
      Stops e src (fun _ => False) (Scanner.pos x) (Scanner.pos y) (Scanner.interrupted y) ∧
      Markup.strip (Scanner.tagged y).1 = src.slice (Scanner.pos x) (Scanner.pos y) := by
  obtain ⟨able, drained⟩ := Html.waits_setSource tag src
  exact (Html.covers e src).rounds able drained moves

/-- Scripts and styles are scanned one segment a run, whether they stand in markup, in a server language, in both
or in neither; and so is ActionScript by itself. -/
theorem embedded_segments (html server : Bool) (text : String) :
    Scanner.Segments { html, server } (Source.ofString text)
        (fun at_ => html = true ∧ Script.scriptClose.StartsAt (Source.ofString text) at_)
        (Scanner.setSource (ScriptScanner.ofEmbedding { html, server }) (Source.ofString text)) ∧
      Scanner.Segments {} (Source.ofString text) (fun _ => False)
        (Scanner.setSource Script.ActionScript.scanner (Source.ofString text)) ∧
      Scanner.Segments { html, server } (Source.ofString text)
        (fun at_ => html = true ∧ Style.styleClose.StartsAt (Source.ofString text) at_)
        (Scanner.setSource ({ embedding := { html, server } } : StyleScanner) (Source.ofString text)) := by
  refine ⟨Script.segments (Script.suits _ rfl) _, ?_, Style.segments rfl _⟩
  intro calls
  obtain ⟨x, y, ran, ran', segment⟩ := Script.segments Script.ActionScript.suits (Source.ofString text) calls
  refine ⟨x, y, ran, ran', { segment with ended := ?_ }⟩
  exact segment.ended.imp id (Or.imp id fun closes => by cases closes.1)

/-- HTML in a server language stops at the first tag of the server, wherever the host lets it go on after the tags
before, and what it renders in between shows the source. HTML by itself goes on to the end. -/
theorem html_rounds (html server : Bool) (text : String) (moves : List Nat) :
    (∃ x y, HostCall.runAll (HostCall.rounds moves)
        (Scanner.setSource (HtmlScanner.ofEmbedding { html, server }) (Source.ofString text)) = .ok () x ∧
      Scanner.main x = .ok () y ∧
      Markup.strip (Scanner.tagged y).1 = (Source.ofString text).slice (Scanner.pos x) (Scanner.pos y) ∧
      (Scanner.interrupted y ↔ (Source.ofString text).At "<?" (Scanner.pos y)) ∧
      (Scanner.interrupted y → server = true) ∧
      (server = true → (Source.ofString text).FirstFrom "<?" (Scanner.pos x) (Scanner.pos y)) ∧
      (server = false → Scanner.pos y = (Source.ofString text).size)) ∧
    ∃ out y, Scanner.highlight text (HtmlScanner.ofEmbedding { html }) = .ok out y ∧ Markup.strip out = text := by
  constructor
  · obtain ⟨x, y, rans, ran, le, stops, strips⟩ := Html.rounds (e := { html, server }) rfl moves
    exact ⟨x, y, rans, ran, strips, stops.interrupted_iff fun _ no => no.elim, fun on => (stops.server on).1,
      stops.firstFrom le, stops.atEnd⟩
  · obtain ⟨x, y, rans, ran, _, stops, strips⟩ := Html.rounds (e := { html }) rfl []
    cases rans
    have ended : Scanner.pos y = (Source.ofString text).size := stops.atEnd rfl
    refine ⟨_, _, Scanner.highlight_eq ran, ?_⟩
    show Markup.strip (Scanner.tagged y).1 = text
    rw [strips, ended, Source.slice_eq_ofList]
    show String.ofList ((Source.ofString text).between 0 _) = text
    rw [Source.between_whole]
    exact String.ofList_toList

end Gloss.Language
