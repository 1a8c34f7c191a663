import ProtobufC.Library.Runs

/-! # Streams of frames

A `FrameReader` takes one frame at a time from the front of a buffer.  `drain` gives every frame that is
there to a consumer, until one is refused, and `feed` does so after each piece of a stream that arrives.

A reader is `Stable` when more bytes behind a frame do not change it; then it makes no difference how the
stream was cut (`Stable.feed_eq`), and what the consumer gets is the frames of the whole stream in order
(`drain_eq_parse`).  `feed_agrees_iff` compares a reader with a stable one that tests the buffer otherwise.
-/

namespace ProtobufC.Library
set_option autoImplicit false

variable {β φ σ : Type}

/-- A way of taking a frame from the front of a buffer. -/
structure FrameReader (β φ : Type) where
  take : List β → Option (φ × List β)
  shrinks : ∀ {bs : List β} {frame : φ} {rest : List β},
    take bs = some (frame, rest) → rest.length < bs.length

/-- More bytes behind a frame do not change it. -/
def FrameReader.Stable (R : FrameReader β φ) : Prop :=
  ∀ {bs : List β} {frame : φ} {rest : List β}, R.take bs = some (frame, rest) →
    ∀ more, R.take (bs ++ more) = some (frame, rest ++ more)

namespace FrameReader
variable (R : FrameReader β φ) (deliver : σ → φ → Except Fault (σ × Bool))

/-! ## Consumers -/

/-- The frames of a buffer, and what is left behind them. -/
def parse (bs : List β) : List φ × List β :=
  match h : R.take bs with
  | none => ([], bs)
  | some (frame, rest) =>
      have := R.shrinks h
      let r := parse rest
      (frame :: r.1, r.2)
termination_by bs.length

/-- The frames are delivered in order, until one is refused. -/
def deliverAll : List φ → σ → Except Fault (σ × Bool)
  | [], s => .ok (s, true)
  | frame :: frames, s => do
      let (s, go) ← deliver s frame
      if go then deliverAll frames s else return (s, false)

/-- The loop over the frames of a buffer; the buffer is gone once a frame was refused. -/
def drain (s : σ) (bs : List β) : Except Fault (σ × Option (List β)) :=
  match h : R.take bs with
  | none => .ok (s, some bs)
  | some (frame, rest) => do
      have := R.shrinks h
      let (s, go) ← deliver s frame
      if go then drain s rest else return (s, none)
termination_by bs.length

/-- The loop runs after every piece that arrives. -/
def feed : List (List β) → σ × Option (List β) → Except Fault (σ × Option (List β))
  | [], r => .ok r
  | _ :: _, (s, none) => .ok (s, none)
  | piece :: pieces, (s, some bs) => do feed pieces (← R.drain deliver s (bs ++ piece))

variable {R} {deliver}

/-- A refusal is what a round of the loop comes to. -/
theorem refused_eq (x : Except Fault σ) (put : σ → σ) :
    x = (do
      let r ← (do return (← x, false))
      return if r.2 = true then put r.1 else r.1) := by
  cases x with
  | error e => rfl
  | ok s => rfl

theorem parse_of_none {bs : List β} (h : R.take bs = none) : R.parse bs = ([], bs) := by
  rw [parse]
  split
  · rfl
  · rename_i frame rest hsome
    rw [h] at hsome
    exact absurd hsome (by simp)

theorem parse_of_some {bs rest : List β} {frame : φ} (h : R.take bs = some (frame, rest)) :
    R.parse bs = (frame :: (R.parse rest).1, (R.parse rest).2) := by
  rw [parse]
  split
  · rename_i hnone
    rw [h] at hnone
    exact absurd hnone (by simp)
  · rename_i frame' rest' hsome
    obtain ⟨rfl, rfl⟩ := Prod.mk.inj (Option.some.inj (h.symm.trans hsome))
    rfl

theorem drain_of_none {s : σ} {bs : List β} (h : R.take bs = none) :
    R.drain deliver s bs = .ok (s, some bs) := by
  rw [drain]
  split
  · rfl
  · rename_i frame rest hsome
    rw [h] at hsome
    exact absurd hsome (by simp)

theorem drain_of_some {s : σ} {bs rest : List β} {frame : φ} (h : R.take bs = some (frame, rest)) :
    R.drain deliver s bs = (do
      let (s, go) ← deliver s frame
      if go then R.drain deliver s rest else return (s, none)) := by
  rw [drain]
  split
  · rename_i hnone
    rw [h] at hnone
    exact absurd hnone (by simp)
  · rename_i frame' rest' hsome
    obtain ⟨rfl, rfl⟩ := Prod.mk.inj (Option.some.inj (h.symm.trans hsome))
    rfl

/-- Induction over the frames of a buffer. -/
theorem induction {motive : List β → Prop} (hnone : ∀ bs, R.take bs = none → motive bs)
    (hsome : ∀ bs frame rest, R.take bs = some (frame, rest) → motive rest → motive bs)
    (bs : List β) : motive bs := by
  induction hn : bs.length using Nat.strong_induction_on generalizing bs with
  | _ n ih =>
    cases h : R.take bs with
    | none => exact hnone bs h
    | some x => exact hsome bs x.1 x.2 h (ih _ (hn ▸ R.shrinks h) x.2 rfl)

/-- The consumer gets the frames of the buffer in order, up to the first that it refuses. -/
theorem drain_eq_parse (s : σ) (bs : List β) : R.drain deliver s bs = (do
    let (s, go) ← deliverAll deliver (R.parse bs).1 s
    return (s, if go then some (R.parse bs).2 else none)) := by
  induction bs using R.induction generalizing s with
  | hnone bs h =>
    rw [drain_of_none h, parse_of_none h]
    rfl
  | hsome bs frame rest h ih =>
    rw [drain_of_some h, parse_of_some h]
    unfold deliverAll
    cases deliver s frame with
    | error e => rfl
    | ok r =>
      simp only [except_ok_bind]
      by_cases hgo : r.2 = true
      · rw [if_pos hgo, if_pos hgo]
        exact ih r.1
      · rw [if_neg hgo, if_neg hgo]
        rfl

/-- The loop comes to the end of the buffer when no frame is refused. -/
theorem drain_eq_some_iff {s s' : σ} {bs rest : List β} : R.drain deliver s bs = .ok (s', some rest) ↔
    rest = (R.parse bs).2 ∧ deliverAll deliver (R.parse bs).1 s = .ok (s', true) := by
  rw [drain_eq_parse]
  cases deliverAll deliver (R.parse bs).1 s with
  | error e => simp
  | ok r =>
    obtain ⟨t, go⟩ := r
    cases go with
    | true =>
      change Except.ok (t, some (R.parse bs).2) = _ ↔ _
      simp [and_comm, eq_comm]
    | false =>
      change Except.ok (t, none) = _ ↔ _
      simp

/-- What is left behind the frames holds no frame. -/
theorem take_of_drain {s s' : σ} {bs rest : List β} (h : R.drain deliver s bs = .ok (s', some rest)) :
    R.take rest = none := by
  induction bs using R.induction generalizing s with
  | hnone bs hnone =>
    rw [drain_of_none hnone] at h
    obtain ⟨-, heq⟩ := Prod.mk.inj (Except.ok.inj h)
    exact Option.some.inj heq ▸ hnone
  | hsome bs frame behind hsome ih =>
    rw [drain_of_some hsome] at h
    obtain ⟨⟨t, go⟩, -, h⟩ := except_bind_eq_ok h
    cases go with
    | true => exact ih h
    | false => exact absurd (Prod.mk.inj (Except.ok.inj h)).2 (by simp)

theorem length_of_drain {s s' : σ} {bs rest : List β} (h : R.drain deliver s bs = .ok (s', some rest)) :
    rest.length ≤ bs.length ∧ (R.take bs ≠ none → rest.length < bs.length) := by
  induction bs using R.induction generalizing s with
  | hnone bs hnone =>
    rw [drain_of_none hnone] at h
    obtain rfl := Option.some.inj (Prod.mk.inj (Except.ok.inj h)).2
    exact ⟨Nat.le_refl _, fun hthere => absurd hnone hthere⟩
  | hsome bs frame behind hsome ih =>
    rw [drain_of_some hsome] at h
    obtain ⟨⟨t, go⟩, -, h⟩ := except_bind_eq_ok h
    cases go with
    | true =>
      have hshorter := (ih h).1.trans_lt (R.shrinks hsome)
      exact ⟨hshorter.le, fun _ => hshorter⟩
    | false => exact absurd (Prod.mk.inj (Except.ok.inj h)).2 (by simp)

/-- What a delivered frame keeps is kept by the loop. -/
theorem drain_kept {P : σ → Bool → Prop}
    (hkept : ∀ s frame s' go, P s true → deliver s frame = .ok (s', go) → P s' go) {s s' : σ}
    {bs : List β} {left : Option (List β)} (hs : P s true)
    (h : R.drain deliver s bs = .ok (s', left)) : P s' left.isSome := by
  induction bs using R.induction generalizing s with
  | hnone bs hnone =>
    rw [drain_of_none hnone] at h
    obtain ⟨rfl, rfl⟩ := Prod.mk.inj (Except.ok.inj h)
    exact hs
  | hsome bs frame behind hsome ih =>
    rw [drain_of_some hsome] at h
    obtain ⟨⟨t, go⟩, hdeliver, h⟩ := except_bind_eq_ok h
    have ht := hkept s frame t go hs hdeliver
    cases go with
    | true => exact ih ht h
    | false =>
      obtain ⟨rfl, rfl⟩ := Prod.mk.inj (Except.ok.inj h)
      exact ht

/-! ## Pieces of a stream -/

theorem Stable.drain_append (h : R.Stable) (s : σ) (bs more : List β) :
    R.drain deliver s (bs ++ more) = (do
      match ← R.drain deliver s bs with
      | (s, none) => return (s, none)
      | (s, some rest) => R.drain deliver s (rest ++ more)) := by
  induction bs using R.induction generalizing s with
  | hnone bs hnone =>
    rw [drain_of_none hnone]
    rfl
  | hsome bs frame rest hsome ih =>
    rw [drain_of_some hsome, drain_of_some (h hsome more)]
    cases deliver s frame with
    | error e => rfl
    | ok r =>
      simp only [except_ok_bind]
      by_cases hgo : r.2 = true
      · rw [if_pos hgo, if_pos hgo]
        exact ih r.1
      · rw [if_neg hgo, if_neg hgo]
        rfl

theorem feed_none (pieces : List (List β)) (s : σ) : R.feed deliver pieces (s, none) = .ok (s, none) := by
  cases pieces with
  | nil => rfl
  | cons piece pieces => rfl

theorem feed_cons (piece : List β) (pieces : List (List β)) (s : σ) (bs : List β) :
    R.feed deliver (piece :: pieces) (s, some bs) =
      (do R.feed deliver pieces (← R.drain deliver s (bs ++ piece))) := rfl

theorem feed_append (pieces pieces' : List (List β)) (r : σ × Option (List β)) :
    R.feed deliver (pieces ++ pieces') r = (do R.feed deliver pieces' (← R.feed deliver pieces r)) := by
  induction pieces generalizing r with
  | nil => rfl
  | cons piece pieces ih =>
    obtain ⟨s, _ | bs⟩ := r
    · rw [List.cons_append, feed_none, feed_none]
      exact (feed_none pieces' s).symm
    · rw [List.cons_append, feed_cons, feed_cons]
      cases R.drain deliver s (bs ++ piece) with
      | error e => rfl
      | ok r =>
        simp only [except_ok_bind]
        exact ih r

/-- However a stream is cut, the consumer gets the frames of the whole. -/
theorem Stable.feed_eq (h : R.Stable) (pieces : List (List β)) (s : σ) (bs : List β)
    (hbs : R.take bs = none) :
    R.feed deliver pieces (s, some bs) = R.drain deliver s (bs ++ pieces.flatten) := by
  induction pieces generalizing s bs with
  | nil => rw [List.flatten_nil, List.append_nil, drain_of_none hbs, feed]
  | cons piece pieces ih =>
    rw [List.flatten_cons, ← List.append_assoc, h.drain_append, feed_cons]
    cases hdrain : R.drain deliver s (bs ++ piece) with
    | error e => rfl
    | ok r =>
      simp only [except_ok_bind]
      obtain ⟨s', _ | rest⟩ := r
      · exact feed_none pieces s'
      · exact ih s' rest (take_of_drain hdrain)

theorem feed_concat (pieces : List (List β)) (piece : List β) (r : σ × Option (List β)) :
    R.feed deliver (pieces ++ [piece]) r = (do R.feed deliver [piece] (← R.feed deliver pieces r)) :=
  feed_append pieces [piece] r

theorem feed_one (piece bs : List β) (s : σ) :
    R.feed deliver [piece] (s, some bs) = R.drain deliver s (bs ++ piece) := by
  rw [feed_cons]
  cases R.drain deliver s (bs ++ piece) with
  | error e => rfl
  | ok r => rfl

theorem take_of_feed {pieces : List (List β)} {s s' : σ} {bs rest : List β} (hbs : R.take bs = none)
    (h : R.feed deliver pieces (s, some bs) = .ok (s', some rest)) : R.take rest = none := by
  induction pieces generalizing s bs with
  | nil =>
    obtain ⟨-, heq⟩ := Prod.mk.inj (Except.ok.inj h)
    exact Option.some.inj heq ▸ hbs
  | cons piece pieces ih =>
    rw [feed_cons] at h
    obtain ⟨⟨t, _ | left⟩, hdrain, h⟩ := except_bind_eq_ok h
    · rw [feed_none] at h
      exact absurd (Prod.mk.inj (Except.ok.inj h)).2 (by simp)
    · exact ih (take_of_drain hdrain) h

/-- What is left is not longer than what has come in. -/
theorem length_of_feed {pieces : List (List β)} {s s' : σ} {bs rest : List β}
    (h : R.feed deliver pieces (s, some bs) = .ok (s', some rest)) :
    rest.length ≤ bs.length + pieces.flatten.length := by
  induction pieces generalizing s bs with
  | nil =>
    obtain ⟨-, heq⟩ := Prod.mk.inj (Except.ok.inj h)
    rw [← Option.some.inj heq]
    exact Nat.le_add_right _ _
  | cons piece pieces ih =>
    rw [feed_cons] at h
    obtain ⟨⟨t, _ | left⟩, hdrain, h⟩ := except_bind_eq_ok h
    · rw [feed_none] at h
      exact absurd (Prod.mk.inj (Except.ok.inj h)).2 (by simp)
    · have hleft := (length_of_drain hdrain).1
      have hrest := ih h
      rw [List.length_append] at hleft
      rw [List.flatten_cons, List.length_append]
      omega

theorem feed_kept {P : σ → Bool → Prop}
    (hkept : ∀ s frame s' go, P s true → deliver s frame = .ok (s', go) → P s' go)
    {pieces : List (List β)} {s s' : σ} {left left' : Option (List β)} (hs : P s left.isSome)
    (h : R.feed deliver pieces (s, left) = .ok (s', left')) : P s' left'.isSome := by
  induction pieces generalizing s left with
  | nil =>
    obtain ⟨rfl, rfl⟩ := Prod.mk.inj (Except.ok.inj h)
    exact hs
  | cons piece pieces ih =>
    cases left with
    | none =>
      obtain ⟨rfl, rfl⟩ := Prod.mk.inj (Except.ok.inj h)
      exact hs
    | some bs =>
      rw [feed_cons] at h
      obtain ⟨⟨t, left⟩, hdrain, h⟩ := except_bind_eq_ok h
      exact ih (drain_kept hkept hs hdrain) h

/-! ## Two readers -/

section
variable {C : FrameReader β φ} {Near Long : List β → Prop}

theorem near_of_drain
    (hrest : ∀ bs frame rest, Near bs → R.take bs = some (frame, rest) → Near rest) {s s' : σ}
    {bs rest : List β} (hbs : Near bs) (h : R.drain deliver s bs = .ok (s', some rest)) : Near rest := by
  induction bs using R.induction generalizing s with
  | hnone bs hnone =>
    rw [drain_of_none hnone] at h
    exact Option.some.inj (Prod.mk.inj (Except.ok.inj h)).2 ▸ hbs
  | hsome bs frame behind hsome ih =>
    rw [drain_of_some hsome] at h
    obtain ⟨⟨t, go⟩, -, h⟩ := except_bind_eq_ok h
    cases go with
    | true => exact ih (hrest bs frame behind hbs hsome) h
    | false => exact absurd (Prod.mk.inj (Except.ok.inj h)).2 (by simp)

/-- Where two readers take different frames of a buffer: one waits there, and the other takes one. -/
theorem drain_agrees
    (hrest : ∀ bs frame rest, Near bs → R.take bs = some (frame, rest) → Near rest)
    (hshort : ∀ bs, Near bs → ¬ Long bs → C.take bs = R.take bs)
    (hlong : ∀ bs, Near bs → Long bs → R.take bs = none) (s : σ) (bs : List β) (hbs : Near bs) :
    C.drain deliver s bs = R.drain deliver s bs ∨
      ∃ s' rest, R.drain deliver s bs = .ok (s', some rest) ∧ Long rest ∧
        C.drain deliver s bs = C.drain deliver s' rest := by
  induction bs using R.induction generalizing s with
  | hnone bs hnone =>
    by_cases hl : Long bs
    · exact .inr ⟨s, bs, drain_of_none hnone, hl, rfl⟩
    · rw [drain_of_none hnone, drain_of_none ((hshort bs hbs hl).trans hnone)]
      exact .inl rfl
  | hsome bs frame rest hsome ih =>
    have hl : ¬ Long bs := by
      intro hl
      rw [hlong bs hbs hl] at hsome
      exact absurd hsome (by simp)
    rw [drain_of_some hsome, drain_of_some ((hshort bs hbs hl).trans hsome)]
    cases deliver s frame with
    | error e => exact .inl rfl
    | ok r =>
      simp only [except_ok_bind]
      by_cases hgo : r.2 = true
      · rw [if_pos hgo, if_pos hgo]
        exact ih r.1 (hrest bs frame rest hbs hsome)
      · rw [if_neg hgo, if_neg hgo]
        exact .inl rfl

/-- No buffer that is left after pieces of the stream is long. -/
def NeverLong (R : FrameReader β φ) (deliver : σ → φ → Except Fault (σ × Bool)) (Long : List β → Prop)
    (pieces : List (List β)) (r : σ × Option (List β)) : Prop :=
  ∀ before s' rest, before <+: pieces → R.feed deliver before r = .ok (s', some rest) → ¬ Long rest

variable {pieces : List (List β)} {s : σ} {bs : List β}

theorem feed_eq_of_neverLong
    (hnear : ∀ bs piece, piece ∈ pieces → R.take bs = none → ¬ Long bs → Near (bs ++ piece))
    (hrest : ∀ bs frame rest, Near bs → R.take bs = some (frame, rest) → Near rest)
    (hshort : ∀ bs, Near bs → ¬ Long bs → C.take bs = R.take bs)
    (hlong : ∀ bs, Near bs → Long bs → R.take bs = none)
    (hbs : R.take bs = none) (h : NeverLong R deliver Long pieces (s, some bs)) :
    C.feed deliver pieces (s, some bs) = R.feed deliver pieces (s, some bs) := by
  induction pieces using List.reverseRecOn with
  | nil => rfl
  | append_singleton pieces piece ih =>
    have hbefore := List.prefix_append pieces [piece]
    have heq := ih (fun bs p hp => hnear bs p (List.mem_append_left _ hp))
      fun before s' rest hpre => h before s' rest (hpre.trans hbefore)
    rw [feed_concat, feed_concat, heq]
    cases hfeed : R.feed deliver pieces (s, some bs) with
    | error e => rfl
    | ok r =>
      simp only [except_ok_bind]
      obtain ⟨s', _ | left⟩ := r
      · rfl
      · rw [feed_one, feed_one]
        have hthere := hnear left piece (List.mem_append_right _ List.mem_cons_self)
          (take_of_feed hbs hfeed) (h pieces s' left hbefore hfeed)
        obtain heq | ⟨s'', rest, hdrain, hl, -⟩ := drain_agrees hrest hshort hlong s' _ hthere
        · exact heq
        · refine absurd hl (h _ s'' rest (List.prefix_refl _) ?_)
          rw [feed_concat, hfeed, except_ok_bind, feed_one]
          exact hdrain

/-- A reader that takes a frame where a stable one waits for more is found out, by what is left in the
buffer, after the first piece that makes a buffer long. -/
theorem feed_agrees_iff {ω : Type} {view : σ × Option (List β) → ω} {P : σ → Bool → Prop}
    (hkept : ∀ s frame s' go, P s true → deliver s frame = .ok (s', go) → P s' go)
    (hview : ∀ s left s' left', P s left.isSome → P s' left'.isSome →
      view (s, left) = view (s', left') → left.map List.length = left'.map List.length)
    (hnear : ∀ bs piece, piece ∈ pieces → R.take bs = none → ¬ Long bs → Near (bs ++ piece))
    (hrest : ∀ bs frame rest, Near bs → R.take bs = some (frame, rest) → Near rest)
    (hshort : ∀ bs, Near bs → ¬ Long bs → C.take bs = R.take bs)
    (hlong : ∀ bs, Near bs → Long bs → R.take bs = none ∧ C.take bs ≠ none)
    (hs : P s true) (hbs : R.take bs = none) (hnot : ¬ Long bs) :
    (∀ before, before <+: pieces → (C.feed deliver before (s, some bs)).map view =
      (R.feed deliver before (s, some bs)).map view) ↔ NeverLong R deliver Long pieces (s, some bs) := by
  constructor
  · intro heq
    induction pieces using List.reverseRecOn with
    | nil =>
      intro before s' rest hpre hfeed
      obtain rfl := List.prefix_nil.mp hpre
      obtain rfl := Option.some.inj (Prod.mk.inj (Except.ok.inj hfeed)).2
      exact hnot
    | append_singleton pieces piece ih =>
      have hbefore := List.prefix_append pieces [piece]
      have hnear' := fun bs p (hp : p ∈ pieces) => hnear bs p (List.mem_append_left _ hp)
      have hnever := ih hnear' fun before hpre => heq before (hpre.trans hbefore)
      intro before s' rest hpre hfeed hl
      obtain rfl | hpre := List.prefix_concat_iff.mp hpre
      · -- the piece that makes the buffer long
        have hsame := heq _ (List.prefix_refl _)
        rw [hfeed, feed_concat] at hsame
        rw [feed_concat] at hfeed
        rw [feed_eq_of_neverLong hnear' hrest hshort (fun bs hn hl => (hlong bs hn hl).1) hbs hnever]
          at hsame
        obtain ⟨⟨t, _ | left⟩, hbeforehand, hfeed⟩ := except_bind_eq_ok hfeed
        · exact absurd (Prod.mk.inj (Except.ok.inj hfeed)).2 (by simp)
        · rw [hbeforehand, except_ok_bind, feed_one] at hsame
          rw [feed_one] at hfeed
          have hthere := hnear left piece (List.mem_append_right _ List.mem_cons_self)
            (take_of_feed hbs hbeforehand) (hnever pieces t left (List.prefix_refl _) hbeforehand)
          have ht : P t true := feed_kept hkept (show P s (some bs).isSome from hs) hbeforehand
          have hlast := hlong rest (near_of_drain hrest hthere hfeed) hl
          have hwaits := fun bs hn hl => (hlong bs hn hl).1
          obtain heq' | ⟨s'', rest', hdrain, -, hgoes⟩ : C.drain deliver t (left ++ piece) = _ ∨ _ :=
            drain_agrees hrest hshort hwaits t _ hthere
          · exact hlast.2 (take_of_drain (heq'.trans hfeed))
          · obtain ⟨rfl, hrest'⟩ := Prod.mk.inj (Except.ok.inj (hfeed.symm.trans hdrain))
            obtain rfl := Option.some.inj hrest'
            rw [hgoes] at hsame
            cases hdrain' : C.drain deliver s' rest with
            | error e =>
              rw [hdrain'] at hsame
              exact absurd hsame (by simp [Except.map])
            | ok r =>
              rw [hdrain'] at hsame
              have hs' := drain_kept hkept ht hfeed
              have hlengths := hview r.1 r.2 s' (some rest) (drain_kept hkept hs' hdrain') hs'
                (Except.ok.inj hsame)
              obtain ⟨u, _ | rest''⟩ := r
              · exact absurd hlengths (by simp)
              · exact absurd (Option.some.inj hlengths) ((length_of_drain hdrain').2 hlast.2).ne
      · exact hnever before s' rest hpre hfeed hl
  · intro hnever before hpre
    have hnear' := fun bs piece hp => hnear bs piece (hpre.subset hp)
    have hnever' : NeverLong R deliver Long before (s, some bs) := fun before' s' rest hpre' =>
      hnever before' s' rest (hpre'.trans hpre)
    exact congrArg (Except.map view) (feed_eq_of_neverLong hnear' hrest hshort
      (fun bs hn hl => (hlong bs hn hl).1) hbs hnever')

end

end FrameReader

end ProtobufC.Library
