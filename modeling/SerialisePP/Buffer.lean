import SerialisePP.Lib.Effect
import SerialisePP.Lib.Region
import SerialisePP.Platform

/-!
# Buffers, spans and wrappers

What a serialiser works on. A `serialise_buffer` is an instance of
`SerialisePP.SerialiseBuffer`: a sequence of bytes in some storage, which can be written to,
initialised and extended, and which may move to another storage whenever it is extended. What
the concept promises besides is `SerialisePP.LawfulBuffer`, a hypothesis of the results that
need it.

A serialiser is handed one of three things (`SerialisePP.BufferArg`): the buffer, a span of
it, or the `devirtualised_virtual_buffer` wrapped around it, which keeps a copy of the
buffer's span. A span is only good for as long as the buffer stays where it is, so every run
keeps a record of how each span was used (`SerialisePP.Access`), together with the span the
buffer had at that moment. The record has no influence on the run.
-/

namespace SerialisePP

open Effect Region

/-- A `mutable_bytes_span`: the storage it points to, and its size. -/
structure Span where
  /-- Which storage. -/
  data : ℕ
  /-- The number of bytes. -/
  size : ℕ
deriving DecidableEq, Repr

/-- **A `serialise_buffer`.** -/
class SerialiseBuffer (B : Type) where
  /-- The storage that `span()` points to. -/
  data : B → ℕ
  /-- The bytes that `span()` covers. -/
  bytes : B → List UInt8
  /-- `initialise(size)`, which returns the new value of `span()`. -/
  initialise : (size : ℕ) → EStateM Failure B Span
  /-- `extend(count)`, which returns the new value of `span()`. -/
  extend : (count : ℕ) → EStateM Failure B Span
  /-- The buffer once bytes have been written through `span()`. -/
  store : (offset : ℕ) → List UInt8 → B → B

open SerialiseBuffer

variable {B : Type} [SerialiseBuffer B]

/-- `span()`. -/
def spanOf (b : B) : Span := ⟨data b, (bytes b).length⟩

/-! ### What a buffer promises -/

/-- **The laws of spans**: `extend` returns the span of the buffer, and writing to a buffer
does not move it. -/
structure SpanLaws (B : Type) [SerialiseBuffer B] : Prop where
  extend_span : ∀ (b : B) (count : ℕ),
    Sat (extend count) b (fun span b' => span = spanOf b') fun _ _ => True
  store_span : ∀ (b : B) (offset : ℕ) (xs : List UInt8), offset + xs.length ≤ (bytes b).length →
    spanOf (store offset xs b) = spanOf b

/-- **The contract of a `serialise_buffer`**, for the buffers that satisfy `I` and as long as
they stay below `limit` bytes: `extend` keeps the content and adds exactly the bytes asked
for, `initialise` leaves exactly the bytes asked for, and a write is a write. Extending and
initialising may fail with an exception that satisfies `throws`. -/
structure LawfulBuffer (P : Platform) (B : Type) [SerialiseBuffer B] (I : B → Prop) (limit : ℕ)
    (throws : Exn → Prop) : Prop extends SpanLaws B where
  limit_le : limit ≤ P.sizeRange
  extend_sat : ∀ (b : B) (count : ℕ), I b → (bytes b).length + count < limit →
    Sat (extend count) b
      (fun _ b' => I b' ∧ ∃ more : List UInt8, more.length = count ∧ bytes b' = bytes b ++ more)
      fun e b' => I b' ∧ ∃ x, e = .thrown x ∧ throws x
  initialise_sat : ∀ (b : B) (size : ℕ), I b → size < limit →
    Sat (initialise size) b (fun _ b' => I b' ∧ (bytes b').length = size)
      fun e b' => I b' ∧ ∃ x, e = .thrown x ∧ throws x
  store_eq : ∀ (b : B) (offset : ℕ) (xs : List UInt8), I b →
    offset + xs.length ≤ (bytes b).length →
    I (store offset xs b) ∧ bytes (store offset xs b) = overwrite (bytes b) offset xs

/-- **The strong guarantee of a buffer**: `extend` and `initialise` have no effect on the bytes
if they throw. -/
structure StrongBuffer (B : Type) [SerialiseBuffer B] (I : B → Prop) (limit : ℕ) : Prop where
  extend_error : ∀ (b : B) (count : ℕ), I b → (bytes b).length + count < limit →
    Sat (extend count) b (fun _ _ => True) fun _ b' => bytes b' = bytes b
  initialise_error : ∀ (b : B) (size : ℕ), I b → size < limit →
    Sat (initialise size) b (fun _ _ => True) fun _ b' => bytes b' = bytes b

/-- A buffer that never fails has it. -/
theorem LawfulBuffer.strong {P : Platform} {I : B → Prop} {limit : ℕ}
    (hB : LawfulBuffer P B I limit fun _ => False) : StrongBuffer B I limit where
  extend_error b count hI hlim := by
    refine (hB.extend_sat b count hI hlim).mono (fun _ _ _ => trivial) ?_
    rintro e b' ⟨-, x, -, h⟩
    exact h.elim
  initialise_error b size hI hlim := by
    refine (hB.initialise_sat b size hI hlim).mono (fun _ _ _ => trivial) ?_
    rintro e b' ⟨-, x, -, h⟩
    exact h.elim

/-! ### The state of a run -/

/-- A span, and when it was obtained: how many times the buffer had been resized. -/
structure View extends Span where
  /-- How many times the buffer had been resized. -/
  epoch : ℕ
deriving DecidableEq, Repr

/-- **A use of a span**, with the span the buffer had at that moment. -/
inductive Access
  /-- Bytes are written through a span. -/
  | write (through current : View)
  /-- The span kept by the wrapper is asked for. -/
  | cached (kept current : View)
deriving DecidableEq, Repr

/-- A use of a span that the buffer still has. -/
def Access.Fresh : Access → Prop
  | .write through current => through = current
  | .cached kept current => kept = current

/-- **The state of a run.** -/
structure World (B : Type) where
  /-- The buffer. -/
  buffer : B
  /-- How many times the buffer has been resized. -/
  epoch : ℕ
  /-- The span kept by the wrapper, if there is one. -/
  kept : View
  /-- The uses of spans so far, the latest first. -/
  trace : List Access

/-- A program that works on a buffer. -/
abbrev M (B : Type) := EStateM Failure (World B)

namespace World

/-- The state a call starts in. -/
def start (b : B) : World B := ⟨b, 0, ⟨⟨0, 0⟩, 0⟩, []⟩

/-- The span of the buffer. -/
def current (w : World B) : View := ⟨spanOf w.buffer, w.epoch⟩

/-- The state with a use of a span recorded. -/
def record (w : World B) (a : Access) : World B := { w with trace := a :: w.trace }

/-- The state once bytes have been written to the buffer. -/
def store (w : World B) (offset : ℕ) (xs : List UInt8) : World B :=
  { w with buffer := SerialiseBuffer.store offset xs w.buffer }

/-- The state with a resized buffer. -/
def resized (w : World B) (b : B) : World B := { w with buffer := b, epoch := w.epoch + 1 }

end World

/-! ### Operations on the buffer -/

/-- `assert`. -/
def assert (P : Platform) (condition : Bool) : M B Unit :=
  if P.assertions && !condition then throw .assertFailed else pure ()

/-- **Writing bytes through a span**, that is, to its `subspan` at an offset. The behaviour
is undefined if the bytes do not lie within the span, or if the span is not one of the storage
that the buffer is in. -/
def write (view : View) (offset : ℕ) (xs : List UInt8) : M B Unit := do
  modify fun w => w.record (.write view w.current)
  let w ← get
  if (view.data = data w.buffer ∧ view.size ≤ (bytes w.buffer).length) ∧
      offset + xs.length ≤ view.size then
    modify fun w => w.store offset xs
  else
    throw .undefined

/-- What a write does. -/
theorem write_run (view : View) (offset : ℕ) (xs : List UInt8) (w : World B) :
    write view offset xs w =
      if (view.data = data w.buffer ∧ view.size ≤ (bytes w.buffer).length) ∧
          offset + xs.length ≤ view.size then
        .ok () ((w.record (.write view w.current)).store offset xs)
      else .error .undefined (w.record (.write view w.current)) := by
  by_cases h : (view.data = data w.buffer ∧ view.size ≤ (bytes w.buffer).length) ∧
      offset + xs.length ≤ view.size
  · rw [if_pos h]
    exact congrFun (if_pos h) (w.record (.write view w.current))
  · rw [if_neg h]
    exact congrFun (if_neg h) (w.record (.write view w.current))

/-- A call of a member function of the buffer that resizes it. -/
def resize (f : EStateM Failure B Span) : M B View := fun w =>
  match f w.buffer with
  | .ok span b => .ok ⟨span, w.epoch + 1⟩ (w.resized b)
  | .error e b => .error e { w with buffer := b }

/-- **What a serialiser is handed.** -/
inductive BufferArg
  /-- The `serialise_buffer`. -/
  | direct
  /-- The `devirtualised_virtual_buffer` around it. -/
  | wrapper
  /-- A span of it. -/
  | span (view : View)

namespace BufferArg

/-- `span()`, or the span itself. The wrapper answers with the span it keeps. -/
def getSpan : BufferArg → M B View
  | .direct => do
    let w ← get
    pure w.current
  | .wrapper => do
    modify fun w => w.record (.cached w.kept w.current)
    let w ← get
    pure w.kept
  | .span view => pure view

/-- `extend(count)`, which a span does not have. The wrapper keeps the span that the buffer
returns. -/
def extend (count : ℕ) : BufferArg → M B Unit
  | .direct => do
    let _ ← resize (SerialiseBuffer.extend count)
  | .wrapper => do
    let view ← resize (SerialiseBuffer.extend count)
    modify fun w => { w with kept := view }
  | .span _ => throw .illFormed

end BufferArg

/-- `devirtualised_virtual_buffer`'s constructor: the wrapper keeps the span of the buffer. -/
def makeWrapper : M B Unit := modify fun w => { w with kept := w.current }

/-- A call on a buffer, as its caller sees it: the state of the run begins and ends with
it. -/
def call {α : Type} (m : M B α) : EStateM Failure B α := fun b =>
  match m (World.start b) with
  | .ok a w => .ok a w.buffer
  | .error e w => .error e w.buffer

/-! ### A buffer that moves -/

/-- **A buffer that moves at will**: the storage it is in after each resize is given by a
schedule. It never fails. -/
structure RelocatingBuffer where
  /-- The bytes. -/
  content : List UInt8
  /-- The storage after so many resizes. -/
  schedule : ℕ → ℕ
  /-- The number of resizes. -/
  resizes : ℕ

instance : SerialiseBuffer RelocatingBuffer where
  data b := b.schedule b.resizes
  bytes b := b.content
  initialise size := fun b => .ok ⟨b.schedule (b.resizes + 1), size⟩
    { b with content := List.replicate size 0, resizes := b.resizes + 1 }
  extend count := fun b => .ok ⟨b.schedule (b.resizes + 1), b.content.length + count⟩
    { b with content := b.content ++ List.replicate count 0, resizes := b.resizes + 1 }
  store offset xs b := { b with content := overwrite b.content offset xs }

theorem relocatingBuffer_spanLaws : SpanLaws RelocatingBuffer where
  extend_span b count := by
    show Span.mk _ _ = Span.mk _ (b.content ++ List.replicate count 0).length
    rw [List.length_append, List.length_replicate]
    rfl
  store_span b offset xs h := congrArg (Span.mk (b.schedule b.resizes)) (length_overwrite h)

/-- It honours the contract for as long as its size is a `std::size_t`. -/
theorem relocatingBuffer_lawful (P : Platform) :
    LawfulBuffer P RelocatingBuffer (fun _ => True) P.sizeRange fun _ => False where
  toSpanLaws := relocatingBuffer_spanLaws
  limit_le := le_rfl
  extend_sat _ count _ _ := ⟨trivial, List.replicate count 0, List.length_replicate, rfl⟩
  initialise_sat _ _ _ _ := ⟨trivial, List.length_replicate⟩
  store_eq _ _ _ _ _ := ⟨trivial, rfl⟩

end SerialisePP
