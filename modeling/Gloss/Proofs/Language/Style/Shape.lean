import Gloss.Proofs.Language.Style.Runs
import Gloss.Proofs.Scan.InStep
import Gloss.Proofs.Scan.Unwound

/-!
The regions of a style. Media rules are open with the top levels that are nested in them, one in another, and in the
innermost top level nothing is open, or a media rule that has no brace yet, or a block. This is kept by all that a scanner
may be called for and by each of its steps, whatever the source is and also if a step fails. So no region is closed that
is not open, a brace that closes a nested top level closes its media rule, and at the end of the source no region is left.
-/
namespace Gloss.Language.Style

open Text (Spot Source)

/-- The names of media rules and of the top levels nested in them, innermost first. -/
def tops : Nat → List Kind
  | 0 => []
  | n + 1 => nestedTop :: media :: tops n

/-- What may be open in a style, innermost first. -/
inductive Shaped : List Kind → Prop where
  | top (n : Nat) : Shaped (tops n)
  | rule (n : Nat) : Shaped (media :: tops n)
  | body (n : Nat) : Shaped (block :: tops n)

/-- From the outermost region inwards, a media rule and its nested top level come in turn. -/
theorem reverse_tops (n : Nat) : (tops n).reverse = (List.replicate n [media, nestedTop]).flatten := by
  induction n with
  | zero => rfl
  | succ n ih =>
    rw [tops, List.reverse_cons, List.reverse_cons, ih, List.replicate_succ', List.flatten_append]
    simp

theorem Shaped.reverse {names : List Kind} (h : Shaped names) :
    ∃ n, ∃ last ∈ [[], [media], [block]], names.reverse = (List.replicate n [media, nestedTop]).flatten ++ last := by
  cases h with
  | top n => exact ⟨n, [], by simp, by rw [reverse_tops, List.append_nil]⟩
  | rule n => exact ⟨n, [media], by simp, by rw [List.reverse_cons, reverse_tops]⟩
  | body n => exact ⟨n, [block], by simp, by rw [List.reverse_cons, reverse_tops]⟩

/-- The name of the innermost region, or of the initial state. -/
def innermost (names : List Kind) : Kind := names.head?.getD .initial

/-- Outside of blocks and of media rules without a brace a top level is innermost. -/
theorem Shaped.atTop {names : List Kind} (h : Shaped names) (noBlock : innermost names ≠ block)
    (noRule : innermost names ≠ media) : ∃ n, names = tops n := by
  cases h with
  | top n => exact ⟨n, rfl⟩
  | rule n => exact absurd rfl noRule
  | body n => exact absurd rfl noBlock

theorem Shaped.inRule {names : List Kind} (h : Shaped names) (rule : innermost names = media) :
    ∃ n, names = media :: tops n := by
  cases h with
  | top n => cases n <;> simp [innermost, tops, nestedTop, media, Kind.initial] at rule
  | rule n => exact ⟨n, rfl⟩
  | body n => simp [innermost, block, media] at rule

/-- The state of a scan of a source, with regions of the right shape. -/
structure Formed (src : Source) (s : ScanState) : Prop where
  sound : s.cursor.Sound src
  shaped : Shaped s.names

section Closing

variable {s : ScanState} {fail : ScanError → ScanState → Prop}

theorem stateName_eq (s : ScanState) : s.stateName = innermost s.names := by
  simp only [ScanState.stateName, ScanState.names]
  cases s.regions <;> rfl

/-- A closing brace closes the innermost region, and the media rule around it if that is a nested top level. -/
theorem yields_closeBrace_shaped (shaped : Shaped s.names) {post : Unit → ScanState → Prop}
    (next : ∀ s', s'.cursor = s.cursor → Shaped s'.names →
      s'.regions = s.regions.drop (if s.stateName = nestedTop then 2 else 1) → post () s') :
    Yields closeBrace s post fail := by
  -- A block or a media rule without a brace is closed by itself.
  have alone : ∀ name n, s.names = name :: tops n → name = block ∨ name = media → Yields closeBrace s post fail := by
    intro name n names which
    obtain ⟨r, outer, open_, _, names'⟩ := List.map_eq_cons_iff.mp names
    have name_ : s.stateName = name := by rw [stateName_eq, names]; rfl
    have other : name ≠ nestedTop := by rcases which with rfl | rfl <;> decide
    rw [name_, if_neg other] at next
    simp only [closeBrace]
    refine yields_bind.mpr (yields_bind.mpr (yields_get.mpr (yields_pure.mpr ?_)))
    rw [name_, if_pos (by simpa using which)]
    refine yields_bind.mpr (Nested.yields_popRegion open_ (next _ rfl ?_ ?_))
    · rw [ScanState.names, ScanState.closed_regions, open_, List.tail_cons, names']
      exact .top n
    · rw [ScanState.closed_regions, open_, List.drop_one]
  generalize names : s.names = all at shaped
  cases shaped with
  | rule n => exact alone media n names (.inr rfl)
  | body n => exact alone block n names (.inl rfl)
  | top n =>
    simp only [closeBrace]
    refine yields_bind.mpr (yields_bind.mpr (yields_get.mpr (yields_pure.mpr ?_)))
    cases n with
    | zero =>
      have none_ : s.regions = [] := List.map_eq_nil_iff.mp names
      have name : s.stateName = .initial := by rw [stateName_eq, names]; rfl
      rw [name]
      exact next s rfl (names ▸ .top 0) (by simp [none_])
    | succ n =>
      obtain ⟨inner, regions, open_, nameInner, names'⟩ := List.map_eq_cons_iff.mp names
      obtain ⟨rule, outer, rfl, nameRule, names''⟩ := List.map_eq_cons_iff.mp names'
      have name : s.stateName = nestedTop := by rw [stateName_eq, names]; rfl
      have name' : s.closed.stateName = media := by simp [ScanState.stateName, open_, nameRule]
      rw [name] at next ⊢
      refine yields_bind.mpr (Nested.yields_popRegion open_ ?_)
      refine yields_bind.mpr (yields_bind.mpr (yields_get.mpr (yields_pure.mpr ?_)))
      rw [name']
      have open' : s.closed.regions = rule :: outer := by simp [open_]
      refine yields_bind.mpr (Nested.yields_popRegion open' (next _ rfl ?_ ?_))
      · rw [ScanState.names, ScanState.closed_regions, open', List.tail_cons, names'']
        exact .top n
      · simp [open_]

theorem yields_closeAll_shaped {post : Unit → ScanState → Prop}
    (next : ∀ s', s'.cursor = s.cursor → s'.regions = [] → post () s') :
    Yields (closeRegions s.regions) s post fail := by
  generalize open_ : s.regions = regions
  induction regions generalizing s with
  | nil => exact next s rfl open_
  | cons r outer ih =>
    simp only [closeRegions]
    refine yields_bind.mpr (Nested.yields_popRegion open_ ?_)
    exact ih (fun s' cursor none_ => next s' cursor none_) (by simp [open_])

end Closing

section Tokens

variable {src : Source} {regions : List Region} {s : ScanState} {x : StyleScanner}

/-- The scanner stands before the end of the source, with these regions open. -/
structure Ahead (src : Source) (regions : List Region) (s : ScanState) : Prop where
  sound : s.cursor.Sound src
  before : s.pos < src.size
  same : s.regions = regions

theorem Ahead.withCursor (h : Ahead src regions s) {c : Cursor} (sound : c.Sound src) (here : c.pos = s.pos) :
    Ahead src regions { s with cursor := c } := by
  refine ⟨sound, ?_, h.same⟩
  show c.pos < src.size
  rw [here]
  exact h.before

/-- The next token was taken, or the scan stops before the end of the source or with no region open. -/
inductive Got (src : Source) : Finding → ScanState → Prop where
  | token {kind : Option Kind} {m : Match} {s : ScanState} (formed : Formed src s) (spans : m.Spans src)
      (before : m.start < src.size) : Got src (.token kind m) s
  | stop {s : ScanState} (formed : Formed src s) (left : s.pos < src.size ∨ s.regions = []) : Got src .stop s

/-- An attempt took the next token, or left the scanner where it stands. -/
def Tries (src : Source) (regions : List Region) (r : Option Finding) (x : StyleScanner) : Prop :=
  r.elim (Ahead src regions x.state) (Got src · x.state)

theorem Ahead.formed (h : Ahead src regions s) (shaped : Shaped (regions.map (·.name))) : Formed src s :=
  ⟨h.sound, by rw [ScanState.names, h.same]; exact shaped⟩

variable {fail : ScanError → ScanState → Prop}

theorem yields_scanAhead (ahead : Ahead src regions s) (p : Pattern) {post : Option Match → ScanState → Prop}
    (missed : ∀ c, Ahead src regions { s with cursor := c } → post none { s with cursor := c })
    (found : ∀ m c, c.Sound src → m.Spans src → m.start < src.size → post (some m) { s with cursor := c }) :
    Yields (Scan.scan p) s post fail := by
  refine yields_scan ahead.sound p ?_ ?_
  · exact fun c sound here _ => missed c (ahead.withCursor sound here)
  · intro m c a b marks sound _ occurs here
    have before := ahead.before
    rw [← here, ← occurs.start] at before
    exact found m c sound occurs.spans before

theorem yields_tryAhead (ahead : Ahead src regions s) (condition : Bool) (kind : Kind) (p : Pattern)
    {post : Option Finding → ScanState → Prop} (missed : ∀ c, Ahead src regions { s with cursor := c } →
      post none { s with cursor := c })
    (found : ∀ m c, condition → c.Sound src → m.Spans src → m.start < src.size →
      post (some (.token (some kind) m)) { s with cursor := c }) :
    Yields (tryToken condition kind p) s post fail := by
  simp only [tryToken]
  cases condition with
  | false => exact missed s.cursor ahead
  | true =>
    simp only [Bool.not_true, Bool.false_eq_true, if_false]
    exact yields_bind.mpr (yields_scanAhead ahead p missed fun m c sound spans before =>
      found m c rfl sound spans before)

theorem yields_singleAhead (sound : s.cursor.Sound src) (before : s.pos < src.size) (shaped : Shaped s.names)
    (kind : Option Kind) : Yields (single kind) s (fun f s' => Got src f s') fail := by
  obtain ⟨ch, rest, eq, spans⟩ := sound.head before
  have size : (s.cursor.peek?.map Char.utf8Size).getD 1 = ch.utf8Size := by simp [Cursor.peek?, eq]
  simp only [single]
  refine yields_bind.mpr (yields_ofCursor.mpr (yields_bind.mpr (yields_ofCursor.mpr ?_)))
  rw [size]
  refine yields_bind.mpr (yields_accept sound spans ?_)
  exact fun c _ sound' _ _ => .token ⟨sound', shaped⟩ spans before

variable {fail : ScanError → StyleScanner → Prop}

theorem yields_tries (ahead : Ahead src regions x.state) (shaped : Shaped (regions.map (·.name))) (condition : Bool)
    (kind : Kind) (p : Pattern) :
    Yields (liftM (tryToken condition kind p) : StyleM _) x (Tries src regions) fail := by
  refine yields_state.mpr (yields_tryAhead ahead condition kind p (fun c still => still) ?_)
  intro m c _ sound spans before
  exact .token ⟨sound, (ahead.formed shaped).shaped⟩ spans before

theorem yields_triesWord (ahead : Ahead src regions x.state) (shaped : Shaped (regions.map (·.name)))
    (inBlock inMedia : Bool) (expected : Expected) :
    Yields (liftM (wordToken inBlock inMedia expected) : StyleM _) x (Tries src regions) fail := by
  refine yields_state.mpr ?_
  simp only [wordToken]
  refine yields_bind.mpr (yields_scanAhead ahead word (fun c still => still) ?_)
  intro m c sound spans before
  exact yields_bind.mpr (yields_ofCursor.mpr (.token ⟨sound, (ahead.formed shaped).shaped⟩ spans before))

theorem yields_triesSingle (formed : Formed src x.state) (before : x.state.pos < src.size) (kind : Option Kind) :
    Yields (do return some (← (single kind : ScanM _)) : StyleM (Option Finding)) x (Tries src regions) fail :=
  yields_bind.mpr (yields_state.mpr ((yields_singleAhead formed.sound before formed.shaped kind).mono
    (fun _ _ got => got) fun _ _ failed => failed))

/-- A brace opens what may be opened where it stands, or closes what is open. -/
theorem yields_triesMark (ahead : Ahead src regions x.state) (shaped : Shaped (regions.map (·.name))) (c : Char)
    {name : Kind} (here : innermost (regions.map (·.name)) = name) :
    Yields (mark c (decide (name = block)) (decide (name = media))) x (Tries src regions) fail := by
  have formed := ahead.formed shaped
  have names : x.state.names = regions.map (·.name) := by rw [ScanState.names, ahead.same]
  subst here
  unfold mark
  split
  · refine yields_bind.mpr (yields_state.mpr (yields_closeBrace_shaped formed.shaped ?_))
    intro s' cursor shaped' _
    refine yields_triesSingle (x := { x with state := s' }) ⟨?_, shaped'⟩ ?_ none
    · show s'.cursor.Sound src
      exact cursor ▸ ahead.sound
    · show s'.cursor.pos < src.size
      exact cursor ▸ ahead.before
  · -- The names of regions are those that were looked at when the step began.
    have opened : ∀ (r : Region) (y : StyleScanner), Shaped (r.name :: regions.map (·.name)) →
        y.state = x.state.opened r →
        Yields (do return some (← (single none : ScanM _)) : StyleM (Option Finding)) y (Tries src regions) fail := by
      intro r y shaped' eq
      refine yields_triesSingle ⟨?_, ?_⟩ ?_ none
      · rw [eq]
        exact ahead.sound
      · rw [eq, ScanState.names, ScanState.opened_regions, List.map_cons, ahead.same]
        exact shaped'
      · rw [eq]
        exact ahead.before
    refine yields_bind.mpr (yields_state.mpr (yields_ofCursor.mpr ?_))
    split
    · next inMedia =>
      obtain ⟨n, eq⟩ := shaped.inRule (of_decide_eq_true inMedia)
      refine yields_bind.mpr (yields_state.mpr (yields_modify.mpr (opened _ _ ?_ rfl)))
      rw [eq]
      exact .top (n + 1)
    · next noMedia =>
      split
      · next noBlock =>
        obtain ⟨n, eq⟩ := shaped.atTop (by simpa using noBlock) (by simpa using noMedia)
        refine yields_bind.mpr (yields_state.mpr (yields_modify.mpr (yields_bind.mpr (yields_modify.mpr
          (opened _ _ ?_ rfl)))))
        rw [eq]
        exact .body n
      · exact yields_triesSingle formed ahead.before none
  · exact yields_tries ahead shaped _ _ _
  · exact yields_tries ahead shaped _ _ _
  · split
    · exact yields_bind.mpr (yields_modify.mpr (yields_triesSingle (x := { x with expected := .value }) formed ahead.before _))
    · exact ahead
  · split
    · exact yields_bind.mpr (yields_modify.mpr (yields_triesSingle (x := { x with expected := .key }) formed ahead.before _))
    · exact ahead
  · exact ahead

/-- At the server's tag the scan stops before the end of the source. -/
theorem yields_triesServer (ahead : Ahead src regions x.state) (shaped : Shaped (regions.map (·.name))) :
    Yields (do
      let x ← get
      if x.embedding.server && (← Scan.check x.serverTag).isSome then
        modify fun x => { x with suspension := { x.suspension with interrupted := true } }
        return some .stop
      return none : StyleM (Option Finding)) x (Tries src regions) fail := by
  refine yields_bind.mpr (yields_get.mpr (yields_bind.mpr (yields_state.mpr ?_)))
  have either : ∀ (r : Option Match) (c : Cursor), c.Sound src → c.pos = x.state.pos →
      Yields (if (x.embedding.server && r.isSome) = true then do
          modify fun x => { x with suspension := { x.suspension with interrupted := true } }
          pure (some Finding.stop)
        else pure none : StyleM (Option Finding)) { x with state := { x.state with cursor := c } }
        (Tries src regions) fail := by
    intro r c sound here
    have still := ahead.withCursor sound here
    split
    · exact yields_bind.mpr (yields_modify.mpr (.stop (still.formed shaped) (.inl still.before)))
    · exact still
  exact yields_check ahead.sound _ (fun c sound here _ => either none c sound here)
    fun m c _ _ _ sound here _ _ => either (some m) c sound here

/-- At the closing tag of the markup around, the scan stops with no region open. -/
theorem yields_triesClose (ahead : Ahead src regions x.state) :
    Yields (do
      if (← get).embedding.html && (← Scan.check styleClose).isSome then
        modify fun x => { x with suspension := {} }
        closeRegions (← get).state.regions
        return some .stop
      return none : StyleM (Option Finding)) x (Tries src regions) fail := by
  refine yields_bind.mpr (yields_get.mpr (yields_bind.mpr (yields_state.mpr ?_)))
  have either : ∀ (r : Option Match) (c : Cursor), c.Sound src → c.pos = x.state.pos →
      Yields (if (x.embedding.html && r.isSome) = true then do
          modify fun x => { x with suspension := {} }
          closeRegions (← get).state.regions
          pure (some Finding.stop)
        else pure none : StyleM (Option Finding)) { x with state := { x.state with cursor := c } }
        (Tries src regions) fail := by
    intro r c sound here
    split
    · refine yields_bind.mpr (yields_modify.mpr (yields_bind.mpr (yields_get.mpr ?_)))
      refine yields_bind.mpr (yields_state.mpr (yields_closeAll_shaped ?_))
      intro s' cursor none_
      have sound' : s'.cursor.Sound src := cursor ▸ sound
      refine .stop ⟨sound', ?_⟩ (.inr none_)
      show Shaped (s'.regions.map (·.name))
      rw [none_]
      exact .top 0
    · exact ahead.withCursor sound here
  exact yields_check ahead.sound _ (fun c sound here _ => either none c sound here)
    fun m c _ _ _ sound here _ _ => either (some m) c sound here

/-- A media rule opens its region where no block and no other media rule without a brace is innermost. -/
theorem yields_triesRule (ahead : Ahead src regions x.state) (shaped : Shaped (regions.map (·.name))) (more : Bool)
    {name : Kind} (here : innermost (regions.map (·.name)) = name) :
    Yields (do
      match ← (tryToken (!decide (name = block) && !decide (name = media) && more) .tag mediaRule : ScanM _) with
      | some (.token kind m) =>
        Scan.pushRegion { name := media, start := m.start }
        return some (.token kind m)
      | other => return other : StyleM (Option Finding)) x (Tries src regions) fail := by
  subst here
  refine yields_bind.mpr (yields_state.mpr (yields_tryAhead ahead _ _ _ (fun c still => still) ?_))
  intro m c outside sound spans before
  simp only [Bool.and_eq_true, Bool.not_eq_true', decide_eq_false_iff_not] at outside
  obtain ⟨n, eq⟩ := shaped.atTop outside.1.1 outside.1.2
  refine yields_bind.mpr (yields_state.mpr (yields_modify.mpr (.token ⟨sound, ?_⟩ spans before)))
  show Shaped (media :: x.state.regions.map (·.name))
  rw [ahead.same, eq]
  exact .rule n

/-- A token keeps the shape of the regions, and so does what stops the scan. -/
theorem yields_next_shaped (formed : Formed src x.state) (before : x.state.pos < src.size) :
    Yields next x (fun f y => Got src f y.state) fail := by
  have ahead : Ahead src x.state.regions x.state := ⟨formed.sound, before, rfl⟩
  have shaped : Shaped (x.state.regions.map (·.name)) := formed.shaped
  have here : innermost (x.state.regions.map (·.name)) = x.state.stateName := (stateName_eq x.state).symm
  simp only [next]
  refine yields_bind.mpr (yields_state.mpr (yields_ofCursor.mpr ?_))
  refine yields_bind.mpr (yields_state.mpr (yields_bind.mpr (yields_get.mpr (yields_pure.mpr ?_))))
  refine yields_firstOf_of (fun y => Ahead src x.state.regions y.state) ?_ ?_ ahead
  · intro a member y ahead
    simp only [List.mem_cons, List.not_mem_nil, or_false] at member
    rcases member with rfl | rfl | rfl | rfl | rfl | rfl | rfl | rfl | rfl | rfl | rfl | rfl
    · exact yields_triesServer ahead shaped
    · exact yields_tries ahead shaped _ _ _
    · exact yields_tries ahead shaped _ _ _
    · exact yields_tries ahead shaped _ _ _
    · exact yields_bind.mpr (yields_state.mpr (yields_ofCursor.mpr (yields_tries ahead shaped _ _ _)))
    · exact yields_triesRule ahead shaped _ here
    · split
      · exact yields_bind.mpr (yields_get.mpr (yields_triesWord ahead shaped _ _ _))
      · exact ahead
    · exact yields_tries ahead shaped _ _ _
    · exact yields_tries ahead shaped _ _ _
    · exact yields_triesMark ahead shaped _ here
    · exact yields_triesClose ahead
    · exact yields_tries ahead shaped _ _ _
  · intro y ahead
    exact yields_state.mpr (yields_singleAhead ahead.sound ahead.before (ahead.formed shaped).shaped none)

end Tokens

section Steps

variable {src : Source} {x : StyleScanner}

/-- A failure that leaves the regions in shape, and that is not for want of an open region. -/
def Refuses (src : Source) (err : ScanError) (x : StyleScanner) : Prop := err ≠ .noOpenRegion ∧ Formed src x.state

/-- How a step ends: if it leaves, then before the end of the source or with no region open. -/
structure Steps (src : Source) (r : Progress) (x : StyleScanner) : Prop where
  formed : Formed src x.state
  left : r = .left → x.state.pos < src.size ∨ x.state.regions = []

theorem Formed.sameRegions {s s' : ScanState} (h : Formed src s) (sound : s'.cursor.Sound src)
    (regions : s'.regions = s.regions) : Formed src s' :=
  ⟨sound, by rw [ScanState.names, regions]; exact h.shaped⟩

/-- A match is left where the first tag in it stands, which is before the end of the source. -/
theorem before_tag {m : Match} (spans : m.Spans src) (before : m.start < src.size) {tag : String} {a b : List Char}
    (text : (m.text src).toList = a ++ tag.toList ++ b)
    (least : ∀ a' b', (m.text src).toList = a' ++ tag.toList ++ b' → Text.byteSize a ≤ Text.byteSize a') :
    m.start + Text.byteSize a < src.size := by
  have parts := text
  rw [List.append_assoc] at parts
  obtain ⟨_, _, whole⟩ := spans.front parts
  have within := Source.isBoundary_le spans.stop
  cases tag_ : tag.toList with
  | nil =>
    -- An empty tag stands at the front already.
    rw [tag_] at text least
    have front := least [] (a ++ b) (by simpa using text)
    rw [Text.byteSize_nil] at front
    omega
  | cons ch rest =>
    rw [tag_, List.cons_append, Text.byteSize_cons] at whole
    have some_ := Char.utf8Size_pos ch
    omega

theorem yields_serverBreak_shaped (formed : Formed src x.state) {m : Match} (spans : m.Spans src)
    (before : m.start < src.size) {g : Grammar} {e : Embedding} {kind : Kind} {post : Bool → StyleScanner → Prop}
    (whole : post false x)
    (cut : ∀ y : StyleScanner, Formed src y.state → y.state.pos < src.size → post true y) :
    Yields (liftM (Suspend.serverBreak g e kind m) : StyleM Bool) x post (Refuses src) := by
  refine yields_suspended.mpr (Suspend.yields_break formed.sound spans (fun _ => whole) ?_)
  intro a b c _ text least sound pos
  have formed' : Formed src (Suspend.fronted x.state kind a c) := formed.sameRegions sound Suspend.fronted_regions
  split
  · exact cut _ formed' (lt_of_eq_of_lt pos (before_tag spans before text least))
  · exact ⟨by simp, formed'⟩

theorem yields_skipBlank_shaped {s : ScanState} (formed : Formed src s) {fail : ScanError → ScanState → Prop} :
    Yields Scan.skipBlank s (fun _ s' => Formed src s') fail :=
  yields_skipBlank formed.sound fun _ _ sound _ _ _ => formed.sameRegions sound ScanState.record_regions

theorem yields_recordMatch_shaped {s : ScanState} (formed : Formed src s) (kind : Option Kind) (m : Match)
    {fail : ScanError → ScanState → Prop} : Yields (Scan.recordMatch kind m) s (fun _ s' => Formed src s') fail :=
  yields_bind.mpr (yields_ofCursor.mpr (yields_modify.mpr (formed.sameRegions (by simpa using formed.sound)
    ScanState.record_regions)))

theorem yields_ensureProgress_shaped {s : ScanState} (formed : Formed src s) (language : String) (start depth : Nat) :
    Yields (Scan.ensureProgress language start depth) s (fun _ s' => Formed src s')
      fun err s' => err ≠ .noOpenRegion ∧ Formed src s' := by
  simp only [Scan.ensureProgress]
  refine yields_bind.mpr (yields_get.mpr ?_)
  split
  · exact formed
  · exact ⟨by simp, formed⟩

theorem yields_stepToken_shaped (formed : Formed src x.state) : Yields stepToken x (Steps src) (Refuses src) := by
  simp only [stepToken]
  refine yields_bind.mpr (yields_state.mpr ((yields_skipBlank_shaped formed).mono ?_ fun _ _ failed => failed))
  intro _ s formed
  refine yields_bind.mpr (yields_state.mpr (yields_atEnd formed.sound ?_))
  split
  · exact ⟨formed, by simp⟩
  · next notEnd =>
    have before : s.pos < src.size := Nat.lt_of_le_of_ne formed.sound.le_size (by simpa using notEnd)
    refine yields_bind.mpr (yields_state.mpr (yields_ofCursor.mpr ?_))
    refine yields_bind.mpr (yields_state.mpr (yields_bind.mpr (yields_get.mpr (yields_pure.mpr ?_))))
    refine yields_bind.mpr ((yields_next_shaped (x := { x with state := s }) formed before).mono ?_
      fun _ _ failed => failed)
    intro f y got
    cases got with
    | stop formedY left => exact ⟨formedY, fun _ => left⟩
    | @token kind m _ formedY spans beforeM =>
      refine yields_bind.mpr (yields_get.mpr ?_)
      have record : Yields (do
          Scan.recordMatch kind m
          Scan.ensureProgress y.grammar.name s.cursor.pos s.depth
          pure Progress.more : StyleM Progress) y (Steps src) (Refuses src) := by
        refine yields_bind.mpr (yields_state.mpr ((yields_recordMatch_shaped formedY kind m).mono ?_
          fun _ _ failed => failed))
        intro _ s' formed'
        refine yields_bind.mpr (yields_state.mpr ((yields_ensureProgress_shaped formed' _ _ _).mono ?_
          fun _ _ failed => failed))
        exact fun _ s'' formed'' => ⟨formed'', by simp⟩
      cases kind with
      | none => exact record
      | some kind =>
        refine yields_bind.mpr (yields_serverBreak_shaped formedY spans beforeM record ?_)
        exact fun z formedZ beforeZ => ⟨formedZ, fun _ => .inl beforeZ⟩

/-- One step keeps the shape of the regions; what was cut comes first. -/
theorem yields_step_shaped (formed : Formed src x.state) (before : x.state.pos < src.size) :
    Yields step x (Steps src) (Refuses src) := by
  simp only [step]
  refine yields_bind.mpr (yields_get.mpr (yields_bind.mpr (yields_suspended.mpr ?_)))
  refine Suspend.yields_takeUp formed.sound ?_ ?_ ?_ ?_
  · exact fun _ => yields_stepToken_shaped formed
  · intro kind p m c a b marks _ _ sound _ occurs here
    have start_ : m.start = x.state.pos := occurs.start.trans here
    have formed' : Formed src { x.state with cursor := c } := formed.sameRegions sound rfl
    refine yields_bind.mpr (yields_serverBreak_shaped formed' occurs.spans (start_ ▸ before) ?_ ?_)
    · simp only [Bool.false_eq_true, if_false]
      split
      · refine yields_bind.mpr (yields_state.mpr ((yields_recordMatch_shaped formed' _ _).mono ?_
          fun _ _ failed => failed))
        exact fun _ s' formed'' => yields_stepToken_shaped formed''
      · exact yields_stepToken_shaped formed'
    · exact fun y formedY beforeY => ⟨formedY, fun _ => .inl beforeY⟩
  · exact fun kind _ _ => ⟨by simp, formed⟩
  · exact fun kind p c _ _ sound _ _ => ⟨by simp, formed.sameRegions sound rfl⟩

/-- How a scan ends: before the end of the source, or with no region open. -/
structure Ends (src : Source) (x : StyleScanner) : Prop where
  formed : Formed src x.state
  left : x.state.pos < src.size ∨ x.state.regions = []

theorem yields_unwind_shaped (formed : Formed src x.state) (g : Grammar) {fail : ScanError → StyleScanner → Prop} :
    Yields (liftM (Scan.unwind g) : StyleM Unit) x (fun _ => Ends src) fail := by
  refine yields_state.mpr (Gloss.yields_unwind formed.sound ?_)
  intro ts stop c shares sound ended
  have none_ : ((x.state.givenUp ts).record (leftover src stop)).regions = [] := by
    rw [ScanState.record_regions, ScanState.givenUp_regions, shares.length_eq, List.drop_length]
  refine ⟨⟨sound, ?_⟩, .inr none_⟩
  show Shaped (((x.state.givenUp ts).record (leftover src stop)).regions.map (·.name))
  rw [none_]
  exact .top 0

/-- Steps keep the shape of the regions, and at the end of the source no region is left. -/
theorem yields_loop_shaped (fuel : Nat) (formed : Formed src x.state) :
    Yields (loop fuel) x (fun _ => Ends src) (Refuses src) := by
  induction fuel generalizing x with
  | zero => exact ⟨by simp, formed⟩
  | succ fuel ih =>
    simp only [loop]
    refine yields_bind.mpr (yields_state.mpr (yields_atEnd formed.sound ?_))
    split
    · exact yields_bind.mpr (yields_get.mpr (yields_unwind_shaped formed _))
    · next notEnd =>
      have before : x.state.pos < src.size := Nat.lt_of_le_of_ne formed.sound.le_size (by simpa using notEnd)
      refine yields_bind.mpr ((yields_step_shaped formed before).mono ?_ fun _ _ failed => failed)
      intro r y steps
      cases r with
      | more => exact ih steps.formed
      | atEnd => exact yields_bind.mpr (yields_get.mpr (yields_unwind_shaped steps.formed _))
      | left => exact ⟨steps.formed, steps.left rfl⟩

theorem yields_main_shaped (formed : Formed src x.state) : Yields main x (fun _ => Ends src) (Refuses src) := by
  simp only [main]
  refine yields_bind.mpr (yields_modify.mpr (yields_bind.mpr (yields_get.mpr ?_)))
  exact yields_loop_shaped _ formed

end Steps

section Calls

/-- What leads from one state of a scanner to another: a call, or a step of its main loop. -/
inductive Act where
  | call (c : Call)
  | step

/-- A scanner after a call or a step, also after one that failed. At the end of the source no step is made. -/
def afterAct (x : StyleScanner) : Act → StyleScanner
  | .call c => Scanner.after x c
  | .step => if x.state.cursor.atEnd then x else leftBy (step x)

variable {x : StyleScanner}

/-- There is a source of which the scanner has a cursor, and its regions have the right shape. -/
def InShape (x : StyleScanner) : Prop := ∃ src, Formed src x.state

theorem inShape_setSource (x : StyleScanner) (src : Source) : InShape (Scanner.setSource x src) :=
  ⟨src, Cursor.sound_ofSource src, .top 0⟩

theorem InShape.leftBy {α : Type} {m : StyleM α} (run : ∀ src, Formed src x.state →
    Yields m x (fun _ y => Formed src y.state) fun _ y => Formed src y.state) (h : InShape x) : InShape (leftBy (m x)) := by
  obtain ⟨src, formed⟩ := h
  have left := run src formed
  simp only [Yields] at left
  refine ⟨src, ?_⟩
  cases ran : m x <;> simp_all [Gloss.leftBy]

theorem inShape_main (h : InShape x) : InShape (leftBy (main x)) :=
  h.leftBy fun _ formed => (yields_main_shaped formed).mono (fun _ _ ends => ends.formed) fun _ _ refuses => refuses.2

theorem inShape_afterAct (h : InShape x) (act : Act) : InShape (afterAct x act) := by
  cases act with
  | call c =>
    refine Scanner.keeps_after (fun x src _ => inShape_setSource x src) ?_ ?_ (fun x => inShape_main) h c
    · rintro x pos ⟨src, formed⟩
      exact ⟨src, (formed.sound.setFloor pos).1, formed.shaped⟩
    · rintro x ⟨src, formed⟩
      refine ⟨src, formed.sameRegions ?_ ?_⟩ <;>
      · simp only [Scanner.tagged, Scanner.withState, Grammar.tagged]
        split <;> first | exact formed.sound | rfl
  | step =>
    simp only [afterAct]
    split
    · exact h
    · next notEnd =>
      refine h.leftBy fun src formed => ?_
      have before : x.state.pos < src.size :=
        Nat.lt_of_le_of_ne formed.sound.le_size fun ended => notEnd (formed.sound.atEnd_iff.mpr ended)
      exact (yields_step_shaped formed before).mono (fun _ _ steps => steps.formed) fun _ _ refuses => refuses.2

theorem inShape_afterActs (e : Embedding) (acts : List Act) :
    InShape (acts.foldl afterAct ({ embedding := e } : StyleScanner)) := by
  have begun : InShape ({ embedding := e } : StyleScanner) := ⟨.ofString "", Cursor.sound_ofSource _, .top 0⟩
  generalize ({ embedding := e } : StyleScanner) = x at begun
  induction acts generalizing x with
  | nil => exact begun
  | cons act acts ih => exact ih _ (inShape_afterAct begun act)

/-- Whatever is called on a scanner and however far it has come, its regions are media rules with their nested top levels,
and behind them nothing, a media rule or a block. No region is closed that is not open; a brace that closes a nested top
level closes its media rule; and a scan that has come to the end of the source leaves no region open. -/
theorem regions_keep_shape (e : Embedding) (acts : List Act) :
    let x := acts.foldl afterAct ({ embedding := e } : StyleScanner)
    (∃ n, ∃ last ∈ [[], [media], [block]],
      x.state.names.reverse = (List.replicate n [media, nestedTop]).flatten ++ last) ∧
    givenBy (main x) ≠ .error .noOpenRegion ∧
    (∃ s, closeBrace x.state = .ok () s ∧
      s.regions = x.state.regions.drop (if x.state.stateName = nestedTop then 2 else 1)) ∧
    (x.state.stateName = nestedTop → ∃ outer, x.state.names = nestedTop :: media :: outer) ∧
    (givenBy (main x) = .ok () → (leftBy (main x)).state.cursor.atEnd → (leftBy (main x)).state.regions = []) := by
  intro x
  obtain ⟨src, formed⟩ : InShape x := inShape_afterActs e acts
  have ran := yields_main_shaped formed
  have closes : Yields closeBrace x.state (fun _ s => s.regions =
      x.state.regions.drop (if x.state.stateName = nestedTop then 2 else 1)) fun _ _ => False :=
    yields_closeBrace_shaped formed.shaped fun s _ _ regions => regions
  obtain ⟨_, s, closed, regions⟩ := closes.succeeds
  refine ⟨formed.shaped.reverse, ?_, ⟨s, closed, regions⟩, ?_, ?_⟩
  · intro none_
    simp only [Yields, givenBy] at ran none_
    cases eq : main x with
    | ok _ y => simp [eq] at none_
    | error err y =>
      simp only [eq, Except.error.injEq] at ran none_
      exact ran.1 none_
  · intro name
    rw [stateName_eq] at name
    obtain ⟨n, names⟩ := formed.shaped.atTop (by rw [name]; decide) (by rw [name]; decide)
    cases n with
    | zero => simp [names, innermost, tops, nestedTop, Kind.initial] at name
    | succ n => exact ⟨tops n, names⟩
  · intro ok ended
    simp only [Yields, givenBy, leftBy] at ran ok ended ⊢
    cases eq : main x with
    | error err y => simp [eq] at ok
    | ok _ y =>
      simp only [eq] at ran ended ⊢
      rcases ran.left with before | none_
      · have there := ran.formed.sound.atEnd_iff.mp ended
        exact absurd there (Nat.ne_of_lt before)
      · exact none_

/-- A rule within a media rule: its braces open one region each, and the brace behind it closes both. -/
example : let acts := (.call (.setSource "@media print { b { c: d } } e")) :: List.replicate 5 Act.step
    let x := acts.foldl afterAct ({} : StyleScanner)
    x.state.names = [block, nestedTop, media] ∧
    ((List.replicate 4 Act.step).foldl afterAct x).state.names = [nestedTop, media] ∧
    ((List.replicate 5 Act.step).foldl afterAct x).state.names = [] := by
  decide +kernel

end Calls

end Gloss.Language.Style
