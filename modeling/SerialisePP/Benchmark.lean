import SerialisePP.Consumer
import SerialisePP.RandomState
import SerialisePP.SequentialBuffer

/-!
# The benchmarks

The benchmarks put all of it together. They run in turns: in each, a batch of random sources is
generated on four engines, and then as many samples are taken.

* `benchmark_serialise_only` serialises one source after the other into the same
  `preallocated_buffer`, which is made once for `max_serialised_size()`.
* `benchmark_deserialise` first serialises all of them into a `sequential_buffer`, which is made
  for that many times as much, keeps the span of each, and its samples deserialise and consume one
  object after the other.

That this measures anything depends on everything before. There have to be as many sources as
samples, none may be too large for the buffer or overwrite another, and the consumer must read
what was written. It does, turn after turn: the only exception is the `object_size_error` of a
source that is too large for the format. Without it, the first benchmark has left the last source
in its buffer (`SerialisePP.benchmark_serialises`), and the other has stored what one gets from
the sources alone (`SerialisePP.benchmark_stores`).
-/

namespace SerialisePP

open Effect TwoSection RandomState

variable {P : Platform}

/-! ### The sources of a batch -/

/-- **A generated source is well within limits**: it wraps nothing around, and can only be too
large. -/
theorem BoundedBy.marks {t : Ty} {v : t.Value} {n : ℕ} (h : BoundedBy (layout t v) n)
    (hn : n + 1 < P.sizeRange) : ∀ k ∈ (layout t v).marks 0 t.size, ¬k.Wraps P ∧
      ∀ x, k.failure P = some x → x.isObjectSizeError = true := by
  intro k hk
  have hstarts := h.within 0 t.size k hk
  have htotal : t.size + (layout t v).variableSize ≤ n := fixedSize_layout t v ▸ h.total_le
  constructor
  · cases k with
    | optional pos start =>
      have hstart : start ≤ t.size + (layout t v).variableSize := hstarts
      show ¬P.sizeRange ≤ start + 1
      omega
    | _ => exact id
  · intro x hx
    rcases Mark.of_failure_eq_some hx with ⟨-, hsize⟩ | ⟨rfl, -⟩
    · exact hsize
    · exact hstarts.elim

/-! ### Turns -/

/-- **The state of a benchmark.** -/
structure Bench (P : Platform) (t : Ty) (S : Type) where
  /-- `fixture.random`. -/
  random : RandomState
  /-- `sources`. -/
  sources : List (t.Source P)
  /-- What the benchmark works on besides. -/
  rest : S

/-- A part of a benchmark that neither generates sources nor reads them. -/
def onRest {t : Ty} {S α : Type} (m : EStateM Failure S α) : EStateM Failure (Bench P t S) α :=
  zoom Bench.rest (fun rest s => { s with rest := rest }) m

/-- **`benchmark_impl`**, for as many turns as there is time. -/
def benchmarkImpl {σ : Type} (batchSetup : EStateM Failure σ Unit)
    (sampleFunc : ℕ → EStateM Failure σ Unit) (samplesPerBatch turns : ℕ) :
    EStateM Failure σ Unit :=
  loop (fun _ => do
    batchSetup
    loop sampleFunc samplesPerBatch) turns

section Turns

variable (D : Distributions) {t : Ty} (g : Generator P t) (resized : Option (t.Source P)) (n : ℕ)

/-- The first part of each `batch_setup`. -/
def generateSources {S : Type} : EStateM Failure (Bench P t S) Unit :=
  zoom (fun s => Filling.mk s.random s.sources 0)
    (fun f s => { s with random := f.state, sources := f.vec })
    (Filling.randomVectorGenerate (draw (generate P D t g)) resized n)

/-- The engines that are called in so many turns. -/
def calls (turns : ℕ) : List (Fin 4) := (List.replicate turns (order n)).flatten

/-- **All sources that are generated** in so many turns, without anything else being done. -/
def generateAll (turns : ℕ) : EStateM Failure RandomState (List (t.Source P)) :=
  draws (draw (generate P D t g)) (calls n turns)

/-- How a benchmark fails: with a generator, or with an `object_size_error`. -/
def RunFails {α : Type} (generated : EStateM.Result Failure RandomState α) (e : Failure) : Prop :=
  (∃ random, generated = .error e random) ∨ ∃ x, e = .thrown x ∧ x.isObjectSizeError = true

variable {D g resized n}

/-- One more turn. -/
theorem generateAll_succ (k : ℕ) : generateAll D g n (k + 1) = (do
    let sources ← generateAll D g n k
    let more ← draws (draw (generate P D t g)) (order n)
    pure (sources ++ more)) := by
  rw [generateAll, calls, List.replicate_succ', List.flatten_append, List.flatten_singleton,
    draws_append]
  rfl

/-- A failure to generate is one of all further turns, too. -/
theorem generateAll_error {i k : ℕ} (hik : i ≤ k) {s random : RandomState} {e : Failure}
    (h : generateAll D g n i s = .error e random) : generateAll D g n k s = .error e random := by
  obtain ⟨m, rfl⟩ := Nat.exists_eq_add_of_le hik
  have hcalls : calls n (i + m) = calls n i ++ calls n m := by
    rw [calls, List.replicate_add, List.flatten_append]
    rfl
  rw [generateAll, hcalls, draws_append]
  exact bind_error h

/-- **The sources of a batch**: there is one for each sample, and none is larger than the
bound. -/
theorem sat_generateSources {S : Type} (s : Bench P t S) :
    Sat (generateSources D g resized n) s
      (fun _ s' => draws (draw (generate P D t g)) (order n) s.random = .ok s'.sources s'.random ∧
        s'.rest = s.rest ∧ s'.sources.length = n ∧
          ∀ x ∈ s'.sources, BoundedBy (layout t (t.value x)) (sizeBound t g))
      fun e s' => draws (draw (generate P D t g)) (order n) s.random = .error e s'.random := by
  refine sat_zoom.mpr ((Filling.sat_randomVectorGenerate resized n _).mono ?_ fun _ _ h => h)
  rintro - f hdraws
  have hsources := (sat_draws (sat_draw fun s => generate_boundedBy t g s) (order n) s.random).ok
    hdraws
  rw [length_order] at hsources
  exact ⟨hdraws, rfl, hsources⟩

/-- **The rule for benchmarks.** What one turn keeps, for all sources so far, holds in the end of
all sources that are generated. -/
theorem sat_benchmarkImpl {S : Type} {batchSetup : EStateM Failure (Bench P t S) Unit}
    {sampleFunc : ℕ → EStateM Failure (Bench P t S) Unit} {I : List (t.Source P) → S → Prop}
    (hturn : ∀ (s : Bench P t S) (before : List (t.Source P)), I before s.rest →
      s.sources.length = n →
      (∀ x ∈ s.sources, BoundedBy (layout t (t.value x)) (sizeBound t g)) →
      Sat (do batchSetup; loop sampleFunc n) s
        (fun _ s' => s'.random = s.random ∧ I (before ++ s.sources) s'.rest)
        fun e _ => ∃ x, e = .thrown x ∧ x.isObjectSizeError = true)
    {s : Bench P t S} (hs : I [] s.rest) (k : ℕ) :
    Sat (benchmarkImpl (do generateSources D g resized n; batchSetup) sampleFunc n k) s
      (fun _ s' => ∃ sources, generateAll D g n k s.random = .ok sources s'.random ∧
        I sources s'.rest)
      fun e _ => RunFails (generateAll D g n k s.random) e := by
  refine sat_loop (I := fun i (s' : Bench P t S) => ∃ sources,
    generateAll D g n i s.random = .ok sources s'.random ∧ I sources s'.rest) ?_ ⟨[], rfl, hs⟩
  rintro i s₁ hi ⟨before, hbefore, hI⟩
  rw [bind_assoc, sat_bind]
  refine (sat_generateSources s₁).mono ?_ ?_
  · rintro - s₂ ⟨hdraws, hrest, hlen, hbounded⟩
    refine (hturn s₂ before (hrest ▸ hI) hlen hbounded).mono ?_ fun _ _ h => .inr h
    rintro - s₃ ⟨hrandom, hI'⟩
    refine ⟨before ++ s₂.sources, ?_, hI'⟩
    rw [generateAll_succ, bind_ok hbefore, bind_ok hdraws, hrandom]
    rfl
  · intro e s₂ hdraws
    refine .inl ⟨s₂.random, generateAll_error hi ?_⟩
    rw [generateAll_succ, bind_ok hbefore, bind_error hdraws]

end Turns

/-! ### Serialising -/

section Serialise

variable (D : Distributions) {t : Ty} (g : Generator P t) (resized : Option (t.Source P)) (n : ℕ)

/-- `sample_func`, which serialises a source. -/
def serialiseSample (i : ℕ) : EStateM Failure (Bench P t (PreallocatedBuffer P)) Unit := do
  let s ← get
  match s.sources[i]? with
  | some source => onRest (serialiseObject P t source)
  | none => throw .undefined

/-- **`benchmark_serialise_only_impl`**, with a buffer. -/
def benchmarkSerialiseOnly (turns : ℕ) :
    EStateM Failure (Bench P t (PreallocatedBuffer P)) Unit :=
  benchmarkImpl (generateSources D g resized n) serialiseSample n turns

variable {D g resized n}

/-- What the buffer holds after some sources: the last of them. -/
def LastSerialised (capacity : ℕ) (sources : List (t.Source P)) (b : PreallocatedBuffer P) : Prop :=
  b.capacity = capacity ∧ ∀ source, sources.getLast? = some source →
    b.bytes = fixedData t (t.value source) t.size ++ variableData t (t.value source) t.size

/-- **A sample** serialises a source into a buffer that is large enough. -/
theorem sat_serialiseSample (ht : t.wellFormed = true) (hbound : sizeBound t g + 1 < P.sizeRange)
    {s : Bench P t (PreallocatedBuffer P)} {i : ℕ} {source : t.Source P}
    (hcap : s.rest.capacity = sizeBound t g) (hi : s.sources[i]? = some source)
    (hsource : BoundedBy (layout t (t.value source)) (sizeBound t g)) :
    Sat (serialiseSample i) s
      (fun _ s' => s'.random = s.random ∧ s'.sources = s.sources ∧
        s'.rest.capacity = sizeBound t g ∧ s'.rest.bytes =
          fixedData t (t.value source) t.size ++ variableData t (t.value source) t.size)
      fun e _ => ∃ x, e = .thrown x ∧ x.isObjectSizeError = true := by
  have htotal : t.size + variableSize t (t.value source) ≤ sizeBound t g :=
    fixedSize_layout t (t.value source) ▸ hsource.total_le
  have hserialise := preallocated_serialiseObject_sat ht source s.rest (by omega)
  unfold serialiseSample
  rw [sat_bind, sat_get, hi]
  refine sat_zoom.mpr (hserialise.mono ?_ ?_)
  · rintro - b ⟨hsame, hb, -⟩
    exact ⟨rfl, rfl, hsame.capacity_eq.trans hcap, hb⟩
  · rintro e b ⟨-, x, rfl, ⟨rfl, hfull⟩ | ⟨k, hk, hkx⟩⟩
    · exact absurd hfull (not_lt.mpr (hcap ▸ htotal))
    · exact ⟨x, rfl, (hsource.marks hbound k hk).2 x hkx⟩

/-- **The benchmark serialises what it generates.** Whatever the type, the parameters and the
random numbers, and for any number of turns: its buffer is always large enough, so that all that
can go wrong, apart from a generator, is that a source is too large for the format; and in the end,
the last source of all that one generates is in the buffer. -/
theorem benchmark_serialises (ht : t.wellFormed = true) (hbound : sizeBound t g + 1 < P.sizeRange)
    {heap heap' : Heap} {s : Bench P t (PreallocatedBuffer P)}
    (hbuffer : PreallocatedBuffer.construct P (maxSerialisedSize P t g) heap =
      .ok s.rest heap') (k : ℕ) :
    Sat (benchmarkSerialiseOnly D g resized n k) s
      (fun _ s' => ∃ sources, generateAll D g n k s.random = .ok sources s'.random ∧
        ∀ source, sources.getLast? = some source → s'.rest.bytes =
          fixedData t (t.value source) t.size ++ variableData t (t.value source) t.size)
      fun e _ => RunFails (generateAll D g n k s.random) e := by
  have hcap : s.rest.capacity = sizeBound t g :=
    ((PreallocatedBuffer.sat_construct _ heap).ok hbuffer).trans
      (maxSerialisedSize_eq t g (Nat.lt_of_succ_lt hbound))
  have hsetup : generateSources D g resized n =
      (do generateSources (S := PreallocatedBuffer P) D g resized n; pure ()) :=
    (bind_pure_unit).symm
  rw [benchmarkSerialiseOnly, hsetup]
  refine (sat_benchmarkImpl (I := LastSerialised (sizeBound t g)) ?_ ⟨hcap, nofun⟩ k).mono ?_
    fun _ _ h => h
  · intro s₁ before hlast hlen hbounded
    rw [pure_bind]
    -- after some samples, the last source that has been serialised is one of this batch, if any
    refine (sat_loop (I := fun i s' => s'.random = s₁.random ∧ s'.sources = s₁.sources ∧
      LastSerialised (sizeBound t g) (before ++ s₁.sources.take i) s'.rest) ?_ ?_).mono ?_
        fun _ _ h => h
    · rintro i s₂ hi ⟨hrandom, hsources, hlast₂⟩
      have hlt : i < s₁.sources.length := hi.trans_eq hlen.symm
      have hget : s₁.sources[i]? = some s₁.sources[i] := List.getElem?_eq_getElem hlt
      have hget₂ : s₂.sources[i]? = some s₁.sources[i] := by rw [hsources, hget]
      refine (sat_serialiseSample ht hbound hlast₂.1 hget₂
        (hbounded _ (List.getElem_mem _))).mono ?_ fun _ _ h => h
      rintro - s₃ ⟨hrandom₃, hsources₃, hcap₃, hbytes⟩
      refine ⟨hrandom₃.trans hrandom, hsources₃.trans hsources, hcap₃, fun source hsource => ?_⟩
      rw [List.take_add_one, hget, ← List.append_assoc] at hsource
      obtain rfl := Option.some.inj (List.getLast?_concat.symm.trans hsource)
      exact hbytes
    · exact ⟨rfl, rfl, by simpa using hlast⟩
    · rintro - s₂ ⟨hrandom, -, hlast₂⟩
      rw [List.take_of_length_le hlen.le] at hlast₂
      exact ⟨hrandom, hlast₂⟩
  · rintro - s' ⟨sources, hsources, hlast⟩
    exact ⟨sources, hsources, hlast.2⟩

end Serialise

/-- Two turns with two arrays of at most two numbers each, the last of which has one. -/
theorem benchmark_serialises_twice :
    let t : Ty := .dynamicArray (.unsigned 2)
    let g : Generator .x64 t := ⟨1, 2, by decide, ()⟩
    let random : RandomState := ⟨fun i => 1 + i.val.toUInt64⟩
    let buffer : PreallocatedBuffer .x64 := ⟨4096, List.replicate 12 0, 12, 0, rfl, by decide⟩
    Sat (benchmarkSerialiseOnly .exact g none 2 2) ⟨random, [], buffer⟩
      (fun _ s' => s'.rest.bytes = [1, 0, 0, 0, 8, 0, 0, 0, 132, 96])
      fun e _ => ∃ x, e = .thrown x ∧ x.isObjectSizeError = true := by
  intro t g random buffer
  obtain ⟨sources, random', hsources, source, hlast, hbytes⟩ : ∃ sources random',
      generateAll .exact g 2 2 random = .ok sources random' ∧
        ∃ source, sources.getLast? = some source ∧
          fixedData t (t.value source) t.size ++ variableData t (t.value source) t.size =
            [1, 0, 0, 0, 8, 0, 0, 0, 132, 96] := by
    subst t g random
    exact ⟨_, _, rfl, _, rfl, by decide +kernel⟩
  have hbuffer : PreallocatedBuffer.construct .x64 (maxSerialisedSize .x64 t g)
      (Heap.filled 0 fun _ => false) = .ok buffer (Heap.filled 0 fun _ => false).next := rfl
  refine (benchmark_serialises (s := ⟨random, [], buffer⟩) rfl (by decide) hbuffer 2).mono ?_ ?_
  · rintro - s' ⟨sources', hsources', hbytes'⟩
    obtain ⟨rfl, -⟩ := EStateM.Result.ok.inj (hsources.symm.trans hsources')
    exact (hbytes' source hlast).trans hbytes
  · rintro e s' (⟨random₂, hrandom⟩ | hsize)
    · exact absurd (hsources.symm.trans hrandom) nofun
    · exact hsize

/-! ### Deserialising -/

/-- **What `benchmark_deserialise_impl` works on**, besides the sources. -/
structure Objects (P : Platform) where
  /-- `buffer`. -/
  buffer : SequentialBuffer P
  /-- `object_buffers`. -/
  objectBuffers : List Span
  /-- `deserialise_consume_sink`. -/
  sink : UInt64

/-- The loop over the sources: each is serialised, and the span of the buffer kept. -/
def serialiseBatch (P : Platform) (t : Ty) : List (t.Source P) → (objectBuffers : List Span) →
    EStateM Failure (SequentialBuffer P) (List Span)
  | [], objectBuffers => pure objectBuffers
  | source :: sources, objectBuffers => do
    serialiseObject P t source
    let span ← SequentialBuffer.span
    serialiseBatch P t sources (objectBuffers ++ [span])

section Deserialise

variable (D : Distributions) {t : Ty} (g : Generator P t) (resized : Option (t.Source P)) (n : ℕ)

/-- The second part of `batch_setup`, once there are sources. -/
def serialiseSources : EStateM Failure (Bench P t (Objects P)) Unit := do
  let s ← get
  onRest (zoom Objects.buffer (fun buffer s => { s with buffer := buffer })
    SequentialBuffer.clear)
  let objectBuffers ← onRest (zoom Objects.buffer (fun buffer s => { s with buffer := buffer })
    (serialiseBatch P t s.sources []))
  onRest (modify fun s => { s with objectBuffers := objectBuffers })

/-- `sample_func`, which consumes an object of the batch. -/
def deserialiseSample (i : ℕ) : EStateM Failure (Bench P t (Objects P)) Unit := do
  let s ← get
  match s.rest.objectBuffers[i]? with
  | some span => onRest (zoom Objects.sink (fun sink s => { s with sink := sink })
      (consumeAt P (s.rest.buffer.view span) t 0))
  | none => throw .undefined

/-- **`benchmark_deserialise_impl`**, with a buffer. -/
def benchmarkDeserialise (turns : ℕ) : EStateM Failure (Bench P t (Objects P)) Unit :=
  benchmarkImpl (do generateSources D g resized n; serialiseSources) deserialiseSample n turns

variable {D g resized n}

open SequentialBuffer

/-- How a batch fails: with the exception of a mark, or as the objects do not fit. -/
def BatchFails (b : SequentialBuffer P) (items : List (Item P)) (e : Failure) : Prop :=
  Fails P (fun x => x = .badAlloc ∧
      b.buffer.capacity < b.buffer.used + (items.map fun i => i.content.length).sum)
    (items.flatMap Item.marks) e

/-- **A batch of objects is kept**, next to what is there already. -/
theorem sat_serialiseBatch {t : Ty} (ht : t.wellFormed = true) (sources : List (t.Source P))
    {b : SequentialBuffer P} {records : List (Record P)} (h : SequentialBuffer.Invariant b records)
    {items : List (Item P)} (hitems : items = sources.map (Item.mk t ht))
    (hlim : b.buffer.used + (items.map fun i => i.content.length).sum < P.sizeRange)
    (hw : ∀ i ∈ items, Unwrapped P i.marks) :
    Sat (serialiseBatch P t sources (records.map Record.span)) b
      (fun spans b' => b.buffer.SameMemory b'.buffer ∧ ∃ records' : List (Record P),
        SequentialBuffer.Invariant b' records' ∧ spans = records'.map Record.span ∧
          records'.map Record.item = records.map Record.item ++ items)
      fun e b' => b.buffer.SameMemory b'.buffer ∧ BatchFails b items e := by
  induction sources generalizing b records items with
  | nil =>
    subst hitems
    exact ⟨⟨rfl, rfl⟩, records, h, rfl, (List.append_nil _).symm⟩
  | cons source sources ih =>
    subst hitems
    let i : Item P := ⟨t, ht, source⟩
    let rest : List (Item P) := sources.map (Item.mk t ht)
    have hsum : (((source :: sources).map (Item.mk t ht)).map fun i => i.content.length).sum =
      i.content.length + (rest.map fun i => i.content.length).sum := List.sum_cons
    rw [hsum, ← Nat.add_assoc] at hlim
    have hcons : ∀ {e : Failure} {x : Exn}, e = .thrown x → (x = .badAlloc ∧ b.buffer.capacity <
        b.buffer.used + i.content.length + (rest.map fun i => i.content.length).sum ∨
        ∃ k ∈ i.marks ++ rest.flatMap Item.marks, k.failure P = some x) →
          BatchFails b ((source :: sources).map (Item.mk t ht)) e := by
      rintro e x rfl hx
      rw [Nat.add_assoc, ← hsum] at hx
      exact ⟨x, rfl, hx⟩
    rw [serialiseBatch, sat_bind]
    refine (sat_serialiseObject i (by omega)).mono ?_ ?_
    · rintro - b₁ ⟨hafter, hcontent, hm, -⟩
      rw [sat_bind]
      refine (sat_span hafter.start_le).mono ?_ fun _ _ h => h.elim
      rintro span b₂ ⟨rfl, rfl⟩
      have hfits : ∀ k ∈ i.marks, k.Fits := fun k hk =>
        Mark.fits_of_failure_eq_none (hm k hk) (hw i (List.mem_cons_self ..) k hk)
      have hused : b₂.buffer.used = b.buffer.used + i.content.length := by
        rw [← hafter.length_add, hcontent, b.buffer.length_bytes]
      have hbatch := ih (h.serialise i hafter hcontent hfits) rfl (by rw [hused]; exact hlim)
        fun j hj => hw j (List.mem_cons_of_mem _ hj)
      rw [List.map_append, List.map_singleton] at hbatch
      refine hbatch.mono ?_ ?_
      · rintro spans b' ⟨hsame, records', hinv, rfl, hrecords⟩
        refine ⟨hafter.memory.trans hsame, records', hinv, rfl, ?_⟩
        rw [hrecords, List.map_append, List.append_assoc]
        rfl
      · rintro e b' ⟨hsame, x, he, hx⟩
        refine ⟨hafter.memory.trans hsame, hcons he ?_⟩
        rw [hused, hafter.memory.capacity_eq] at hx
        exact hx.imp_right fun ⟨k, hk, hkx⟩ => ⟨k, List.mem_append_right _ hk, hkx⟩
    · rintro e b' ⟨hafter, x, he, hx⟩
      refine ⟨hafter.memory, hcons he (hx.imp ?_ ?_)⟩
      · rintro ⟨hbad, hcap⟩
        exact ⟨hbad, hcap.trans_le (Nat.le_add_right ..)⟩
      · rintro ⟨k, hk, hkx⟩
        exact ⟨k, List.mem_append_left _ hk, hkx⟩

/-- **An object that is held** is deserialised and consumed. -/
theorem sat_deserialiseSample {ht : t.wellFormed = true} {source : t.Source P}
    {s : Bench P t (Objects P)} {i : ℕ} {span : Span}
    (hcap : s.rest.buffer.buffer.capacity < P.sizeRange)
    (hi : s.rest.objectBuffers[i]? = some span)
    (h : Record.Held s.rest.buffer ⟨⟨t, ht, source⟩, span⟩) :
    Sat (deserialiseSample i) s
      (fun _ s' => s' = { s with rest := { s.rest with
        sink := stored t s.rest.sink (t.value source) } }) fun _ _ => False := by
  have hview : s.rest.buffer.view span = (Item.mk t ht source).content := h.view_eq
  obtain ⟨start, -, hin, -, hfits⟩ := h
  have hlen : (Item.mk t ht source).content.length < P.sizeRange :=
    ((Nat.le_of_add_left_le hin).trans s.rest.buffer.buffer.used_le).trans_lt hcap
  obtain ⟨d, hd, hyields⟩ := (Item.mk t ht source).deserialise_content hfits hlen
  have hconsume := consume_of_yields t d _ s.rest.sink ((hyields _).mpr rfl)
  unfold deserialiseSample
  rw [sat_bind, sat_get, hi]
  refine sat_zoom.mpr (sat_zoom.mpr ?_)
  rw [hview, consumeAt, lift_bind hd]
  exact (sat_of_ok hconsume).mpr rfl

/-- **A batch of generated sources is kept**, if the buffer was made for it. -/
theorem sat_serialiseSources (ht : t.wellFormed = true)
    (hbound : sizeBound t g * n + 1 < P.sizeRange) {s : Bench P t (Objects P)}
    (hcap : s.rest.buffer.buffer.capacity = sizeBound t g * n) (hlen : s.sources.length = n)
    (hsources : ∀ x ∈ s.sources, BoundedBy (layout t (t.value x)) (sizeBound t g)) :
    Sat serialiseSources s
      (fun _ s' => s'.random = s.random ∧ s'.sources = s.sources ∧
        s'.rest.buffer.buffer.capacity = sizeBound t g * n ∧ s'.rest.sink = s.rest.sink ∧
          ∀ (i : ℕ) (source : t.Source P), s.sources[i]? = some source →
            ∃ span, s'.rest.objectBuffers[i]? = some span ∧
              Record.Held s'.rest.buffer ⟨⟨t, ht, source⟩, span⟩)
      fun e _ => ∃ x, e = .thrown x ∧ x.isObjectSizeError = true := by
  let items : List (Item P) := s.sources.map (Item.mk t ht)
  have hone : ∀ source ∈ s.sources, sizeBound t g + 1 < P.sizeRange := by
    intro source hsource
    have hn : 0 < n := hlen ▸ List.length_pos_of_mem hsource
    have hle := Nat.le_mul_of_pos_right (sizeBound t g) hn
    omega
  have hmarks : ∀ i ∈ items, ∀ k ∈ i.marks, ¬k.Wraps P ∧
      ∀ x, k.failure P = some x → x.isObjectSizeError = true := by
    intro i hi
    obtain ⟨source, hsource, rfl⟩ := List.mem_map.mp hi
    exact (hsources source hsource).marks (hone source hsource)
  -- the objects take no more than the bound for each, which is the capacity
  have hsum : (items.map fun i => i.content.length).sum ≤ sizeBound t g * n := by
    have hle : ∀ m ∈ items.map fun i => i.content.length, m ≤ sizeBound t g := by
      intro m hm
      obtain ⟨i, hi, rfl⟩ := List.mem_map.mp hm
      obtain ⟨source, hsource, rfl⟩ := List.mem_map.mp hi
      rw [Item.length_content, ← fixedSize_layout]
      exact (hsources source hsource).total_le
    have hcard : _ ≤ (items.map fun i => i.content.length).length * sizeBound t g :=
      List.sum_le_card_nsmul _ _ hle
    rwa [List.length_map, List.length_map, hlen, Nat.mul_comm] at hcard
  unfold serialiseSources
  rw [sat_bind, sat_get, sat_bind]
  refine sat_zoom.mpr (sat_zoom.mpr ((sat_clear _).mono ?_ fun _ _ h => h.elim))
  rintro - b₁ ⟨hsame₁, hused₁⟩
  have hcap₁ : b₁.buffer.capacity = sizeBound t g * n := hsame₁.capacity_eq.trans hcap
  have hlim : b₁.buffer.used + (items.map fun i => i.content.length).sum < P.sizeRange := by
    omega
  rw [sat_bind]
  refine sat_zoom.mpr (sat_zoom.mpr ?_)
  refine (sat_serialiseBatch ht s.sources (invariant_nil b₁) rfl hlim
    fun i hi k hk => (hmarks i hi k hk).1).mono ?_ ?_
  · rintro spans b' ⟨hsame, records, hinv, rfl, hrecords⟩
    refine ⟨rfl, rfl, hsame.capacity_eq.trans hcap₁, rfl, fun i source hi => ?_⟩
    have hitem : (records.map Record.item)[i]? = some ⟨t, ht, source⟩ := by
      rw [hrecords, List.map_nil, List.nil_append, List.getElem?_map, hi]
      rfl
    rw [List.getElem?_map] at hitem
    obtain ⟨r, hr, hitem⟩ := Option.map_eq_some_iff.mp hitem
    refine ⟨r.span, (List.getElem?_map ..).trans (congrArg (Option.map Record.span) hr), ?_⟩
    rw [← hitem]
    exact hinv.held r (List.mem_of_getElem? hr)
  · rintro e b' ⟨-, x, rfl, ⟨rfl, hfull⟩ | ⟨k, hk, hkx⟩⟩
    · have hroom : b₁.buffer.used + (items.map fun i => i.content.length).sum ≤
        b₁.buffer.capacity := by omega
      exact absurd hfull (not_lt.mpr hroom)
    · obtain ⟨i, hi, hk⟩ := List.mem_flatMap.mp hk
      exact ⟨x, rfl, (hmarks i hi k hk).2 x hkx⟩

/-- **The benchmark stores what it generates.** Whatever the type, the parameters and the random
numbers, and for any number of turns: the sources go through the serialiser, a buffer that they
share and the deserialisers, and what is stored in the end is what one gets from the sources
alone. All that can go wrong, apart from a generator, is that a source is too large for the
format. -/
theorem benchmark_stores (ht : t.wellFormed = true)
    (hbound : sizeBound t g * n + 1 < P.sizeRange) {heap heap' : Heap}
    {s : Bench P t (Objects P)}
    (hbuffer : SequentialBuffer.construct P (P.wrap (maxSerialisedSize P t g * n)) heap =
      .ok s.rest.buffer heap') (k : ℕ) :
    Sat (benchmarkDeserialise D g resized n k) s
      (fun _ s' => ∃ sources, generateAll D g n k s.random = .ok sources s'.random ∧
        s'.rest.sink = (sources.map t.value).foldl (stored t) s.rest.sink)
      fun e _ => RunFails (generateAll D g n k s.random) e := by
  have hcap : s.rest.buffer.buffer.capacity = sizeBound t g * n := by
    refine ((SequentialBuffer.sat_construct _ heap).ok hbuffer).trans ?_
    rw [Nat.mul_comm, Nat.mul_comm (sizeBound t g)]
    refine wrap_mul_of_lt (Nat.mul_comm .. ▸ Nat.lt_of_succ_lt hbound) fun hn => ?_
    exact maxSerialisedSize_eq t g ((Nat.le_mul_of_pos_right _ hn).trans_lt
      (Nat.lt_of_succ_lt hbound))
  refine (sat_benchmarkImpl (I := fun before (o : Objects P) =>
    o.buffer.buffer.capacity = sizeBound t g * n ∧
      o.sink = (before.map t.value).foldl (stored t) s.rest.sink) ?_ ⟨hcap, rfl⟩ k).mono ?_
        fun _ _ h => h
  · rintro s₁ before ⟨hcap₁, hsink⟩ hlen hbounded
    rw [sat_bind]
    refine (sat_serialiseSources ht hbound hcap₁ hlen hbounded).mono ?_ fun _ _ h => h
    rintro - s₂ ⟨hrandom, hsources, hcap₂, hsink₂, hheld⟩
    have hsmall : s₂.rest.buffer.buffer.capacity < P.sizeRange := by omega
    -- the samples change nothing but what is stored
    refine (sat_loop (I := fun i s' => s'.random = s₂.random ∧
      s'.rest.buffer = s₂.rest.buffer ∧ s'.rest.objectBuffers = s₂.rest.objectBuffers ∧
        s'.rest.sink = ((before ++ s₁.sources.take i).map t.value).foldl (stored t) s.rest.sink)
          ?_ ?_).mono ?_ fun _ _ h => h
    · rintro i s₃ hi ⟨hrandom₃, hbuffer₃, hspans₃, hsink₃⟩
      have hlt : i < s₁.sources.length := hi.trans_eq hlen.symm
      have hget : s₁.sources[i]? = some s₁.sources[i] := List.getElem?_eq_getElem hlt
      obtain ⟨span, hspan, h⟩ := hheld i _ hget
      rw [← hspans₃] at hspan
      rw [← hbuffer₃] at hsmall h
      refine (sat_deserialiseSample hsmall hspan h).mono ?_ fun _ _ h => h.elim
      rintro - s' rfl
      refine ⟨hrandom₃, hbuffer₃, hspans₃, ?_⟩
      rw [List.take_add_one, hget, ← List.append_assoc, List.map_append, List.foldl_append,
        ← hsink₃]
      rfl
    · exact ⟨rfl, rfl, rfl, by rw [List.take_zero, List.append_nil, hsink₂, hsink]⟩
    · rintro - s' ⟨hrandom', hbuffer', -, hsink'⟩
      rw [List.take_of_length_le hlen.le] at hsink'
      exact ⟨hrandom'.trans hrandom, hbuffer' ▸ hcap₂, hsink'⟩
  · rintro - s' ⟨sources, hgenerated, -, hsink⟩
    exact ⟨sources, hgenerated, hsink⟩

end Deserialise

/-- Two turns with two arrays of at most two numbers each. -/
theorem benchmark_stores_twice :
    let t : Ty := .dynamicArray (.unsigned 2)
    let g : Generator .x64 t := ⟨1, 2, by decide, ()⟩
    let random : RandomState := ⟨fun i => 1 + i.val.toUInt64⟩
    let buffer : SequentialBuffer .x64 := ⟨⟨4096, List.replicate 24 0, 24, 0, rfl, by decide⟩, 0⟩
    Sat (benchmarkDeserialise .exact g none 2 2) ⟨random, [], buffer, [], 0⟩
      (fun _ s' => s'.rest.sink = 24708)
      fun e _ => ∃ x, e = .thrown x ∧ x.isObjectSizeError = true := by
  intro t g random buffer
  obtain ⟨sources, random', hsources, hsink⟩ : ∃ sources random',
      generateAll .exact g 2 2 random = .ok sources random' ∧
        (sources.map t.value).foldl (stored t) 0 = 24708 := by
    subst t g random
    exact ⟨_, _, rfl, by decide +kernel⟩
  have hbuffer : SequentialBuffer.construct .x64
      (Platform.x64.wrap (maxSerialisedSize .x64 t g * 2)) (Heap.filled 0 fun _ => false) =
        .ok buffer (Heap.filled 0 fun _ => false).next := rfl
  refine (benchmark_stores (s := ⟨random, [], buffer, [], 0⟩) rfl (by decide) hbuffer 2).mono ?_ ?_
  · rintro - s' ⟨sources', hsources', hsink'⟩
    obtain ⟨rfl, -⟩ := EStateM.Result.ok.inj (hsources.symm.trans hsources')
    exact hsink'.trans hsink
  · rintro e s' (⟨random₂, hrandom⟩ | hsize)
    · exact absurd (hsources.symm.trans hrandom) nofun
    · exact hsize

end SerialisePP
