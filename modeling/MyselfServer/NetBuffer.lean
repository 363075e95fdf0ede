import Mathlib.Algebra.Ring.Nat
import MyselfServer.Machine
import MyselfServer.Memory

/-!
# The buffer of a connection

`Buffer`, a vector of bytes with a read index and a write index, with the
arithmetic of `size_t`. An operation that throws, because the vector would be
longer than a vector can be, has no result. The kernel's answer to `readv` is
given: an error, or the bytes it delivers.
-/

namespace Myself.Net

open Machine Memory

abbrev Bytes := List UInt8

def add (a b : Nat) : Nat := (a + b) % 2 ^ 64

def sub (a b : Nat) : Nat := (a + (2 ^ 64 - b)) % 2 ^ 64

/-- No object of the language has more bytes, and no vector. -/
def kMaxSize : Nat := 2 ^ 63 - 1

def kInitialSize : Nat := 1024

def kPrependSize : Nat := 8

def resize (v : Bytes) (n : Nat) : Option Bytes :=
  if n ≤ kMaxSize then some (v.take n ++ List.replicate (n - v.length) 0) else none

structure Buffer where
  buffer : Bytes
  readIndex : Nat := kPrependSize
  writeIndex : Nat := kPrependSize

namespace Buffer

def create (initialSize : Nat) : Option Buffer :=
  (resize [] (add kPrependSize initialSize)).map fun v => { buffer := v }

def readableBytes (b : Buffer) : Nat := sub b.writeIndex b.readIndex

def writableBytes (b : Buffer) : Nat := sub b.buffer.length b.writeIndex

def prependableBytes (b : Buffer) : Nat := b.readIndex

def retrieveAll (b : Buffer) : Buffer :=
  { b with readIndex := kPrependSize, writeIndex := kPrependSize }

def retrieve (b : Buffer) (len : Nat) : Buffer :=
  if len ≥ b.readableBytes then b.retrieveAll else { b with readIndex := add b.readIndex len }

def retrieveAsString (b : Buffer) (len : Nat) : Bytes × Buffer :=
  let n := min len b.readableBytes
  (slice b.buffer b.readIndex n, b.retrieve n)

def retrieveAllAsString (b : Buffer) : Bytes × Buffer := b.retrieveAsString b.readableBytes

/-- If the consumed space in front and the rest behind are enough, the bytes
are moved to the front; else the vector grows. -/
def makeSpace (b : Buffer) (len : Nat) : Option Buffer :=
  if add b.writableBytes b.prependableBytes < add len kPrependSize then
    (resize b.buffer (add b.writeIndex len)).map fun v => { b with buffer := v }
  else
    let readable := b.readableBytes
    some {
      buffer := copy (b.writeIndex - b.readIndex) b.buffer b.readIndex kPrependSize
      readIndex := kPrependSize
      writeIndex := add kPrependSize readable }

def ensureWritableBytes (b : Buffer) (len : Nat) : Option Buffer :=
  if b.writableBytes < len then b.makeSpace len else some b

def hasWritten (b : Buffer) (len : Nat) : Buffer := { b with writeIndex := add b.writeIndex len }

def append (b : Buffer) (data : Bytes) : Option Buffer :=
  (b.ensureWritableBytes data.length).map fun b =>
    { b with buffer := write b.buffer b.writeIndex data }.hasWritten data.length

/-- The bytes on the stack that `readFd` has besides the buffer. -/
def kExtra : Nat := 65536

def iovecBytes (b : Buffer) : Nat :=
  if b.writableBytes < kExtra then b.writableBytes + kExtra else b.writableBytes

/-- The result, what is written to `savedErrno`, and the buffer. -/
def readFd (b : Buffer) : Except Int Bytes → Option (Int × Option Int × Buffer)
  | .error errno => some (-1, some errno, b)
  | .ok data =>
    let writable := b.writableBytes
    let received := { b with buffer := write b.buffer b.writeIndex (data.take writable) }
    if data.length ≤ writable then
      some (data.length, none, { received with writeIndex := add b.writeIndex data.length })
    else
      ({ received with writeIndex := b.buffer.length }.append (data.drop writable)).map fun b =>
        (data.length, none, b)

end Buffer

/-! ## Runs -/

inductive BufferOp where
  | append (data : Bytes)
  | ensureWritableBytes (len : Nat)
  | retrieve (len : Nat)
  | retrieveAll
  | retrieveAsString (len : Nat)
  | retrieveAllAsString
  | readFd (answer : Except Int Bytes)

inductive Returned where
  | nothing
  | text (s : Bytes)
  | count (n : Int) (savedErrno : Option Int)

def Buffer.step (b : Buffer) : BufferOp → Option (Buffer × Returned)
  | .append data =>
    if data.length ≤ kMaxSize then (b.append data).map fun b => (b, .nothing) else none
  | .ensureWritableBytes len => (b.ensureWritableBytes len).map fun b => (b, .nothing)
  | .retrieve len => some (b.retrieve len, .nothing)
  | .retrieveAll => some (b.retrieveAll, .nothing)
  | .retrieveAsString len => some ((b.retrieveAsString len).2, .text (b.retrieveAsString len).1)
  | .retrieveAllAsString => some (b.retrieveAllAsString.2, .text b.retrieveAllAsString.1)
  | .readFd (.error errno) => (b.readFd (.error errno)).map fun r => (r.2.2, .count r.1 r.2.1)
  | .readFd (.ok data) =>
    if data.length ≤ b.iovecBytes then
      (b.readFd (.ok data)).map fun r => (r.2.2, .count r.1 r.2.1)
    else none

structure Use where
  buffer : Buffer
  ops : List BufferOp := []
  returned : List Returned := []

def Use.step (s : Use) (op : BufferOp) : Option Use :=
  (s.buffer.step op).map fun r => ⟨r.1, s.ops ++ [op], s.returned ++ [r.2]⟩

/-! ## The queue -/

def queueStep (q : Bytes) : BufferOp → Bytes × Returned
  | .append data => (q ++ data, .nothing)
  | .ensureWritableBytes _ => (q, .nothing)
  | .retrieve len => (q.drop len, .nothing)
  | .retrieveAll => ([], .nothing)
  | .retrieveAsString len => (q.drop len, .text (q.take len))
  | .retrieveAllAsString => ([], .text q)
  | .readFd (.error errno) => (q, .count (-1) (some errno))
  | .readFd (.ok data) => (q ++ data, .count data.length none)

def queueRun (ops : List BufferOp) : Bytes × List Returned :=
  ops.foldl (fun p op => ((queueStep p.1 op).1, p.2 ++ [(queueStep p.1 op).2])) ([], [])

theorem queueRun_concat (ops : List BufferOp) (op : BufferOp) :
    queueRun (ops ++ [op]) =
      ((queueStep (queueRun ops).1 op).1, (queueRun ops).2 ++ [(queueStep (queueRun ops).1 op).2]) := by
  rw [queueRun, List.foldl_append]
  rfl

namespace Buffer

structure Ok (b : Buffer) : Prop where
  front : kPrependSize ≤ b.readIndex
  order : b.readIndex ≤ b.writeIndex
  room : b.writeIndex ≤ b.buffer.length
  size : b.buffer.length ≤ kMaxSize

def bytes (b : Buffer) : Bytes := slice b.buffer b.readIndex (b.writeIndex - b.readIndex)

def Fits (b : Buffer) : BufferOp → Prop
  | .ensureWritableBytes len => b.writeIndex + len < 2 ^ 64
  | _ => True

instance (b : Buffer) (op : BufferOp) : Decidable (b.Fits op) :=
  match op with
  | .ensureWritableBytes _ => Nat.decLt _ _
  | .append _ | .retrieve _ | .retrieveAll | .retrieveAsString _ | .retrieveAllAsString | .readFd _ =>
    inferInstanceAs (Decidable True)

/-! ## Spec of each operation -/

section
variable {b b' : Buffer} {len : Nat} {data : Bytes}

theorem Ok.length_bytes (h : b.Ok) : b.bytes.length = b.writeIndex - b.readIndex := by
  have := h.order
  have := h.room
  exact length_slice (by omega)

theorem Ok.readableBytes_eq (h : b.Ok) : b.readableBytes = b.writeIndex - b.readIndex := by
  obtain ⟨hf, ho, hr, hs⟩ := h
  simp only [readableBytes, sub, kMaxSize] at *
  omega

theorem Ok.writableBytes_eq (h : b.Ok) : b.writableBytes = b.buffer.length - b.writeIndex := by
  obtain ⟨hf, ho, hr, hs⟩ := h
  simp only [writableBytes, sub, kMaxSize] at *
  omega

theorem Ok.retrieveAll (h : b.Ok) : b.retrieveAll.Ok ∧ b.retrieveAll.bytes = [] := by
  refine ⟨⟨Nat.le_refl _, Nat.le_refl _, ?_, h.size⟩, ?_⟩
  · exact Nat.le_trans h.front (Nat.le_trans h.order h.room)
  · simp [bytes, Buffer.retrieveAll, slice]

theorem Ok.retrieve (h : b.Ok) (len : Nat) :
    (b.retrieve len).Ok ∧ (b.retrieve len).bytes = b.bytes.drop len := by
  unfold Buffer.retrieve
  rw [h.readableBytes_eq]
  split
  · rename_i hall
    refine ⟨h.retrieveAll.1, ?_⟩
    rw [h.retrieveAll.2, List.drop_of_length_le (by rw [h.length_bytes]; exact hall)]
  · rename_i hsome
    obtain ⟨hf, ho, hr, hs⟩ := h
    have hadd : add b.readIndex len = b.readIndex + len := by
      simp only [add, kMaxSize] at *
      omega
    rw [hadd]
    refine ⟨⟨by dsimp only; omega, by dsimp only; omega, hr, hs⟩, ?_⟩
    simp only [bytes, drop_slice]
    congr 1
    omega

theorem Ok.retrieveAsString (h : b.Ok) (len : Nat) :
    (b.retrieveAsString len).2.Ok ∧ (b.retrieveAsString len).2.bytes = b.bytes.drop len ∧
      (b.retrieveAsString len).1 = b.bytes.take len := by
  have hlen := h.length_bytes
  simp only [Buffer.retrieveAsString, h.readableBytes_eq]
  refine ⟨(h.retrieve _).1, ?_, ?_⟩
  · rw [(h.retrieve _).2]
    by_cases hle : len ≤ b.writeIndex - b.readIndex
    · rw [Nat.min_eq_left hle]
    · rw [Nat.min_eq_right (by omega), List.drop_of_length_le (by omega),
        List.drop_of_length_le (by omega)]
  · have hslice : slice b.buffer b.readIndex (min len (b.writeIndex - b.readIndex)) =
        b.bytes.take (min len (b.writeIndex - b.readIndex)) := (take_slice (Nat.min_le_right ..)).symm
    rw [hslice, ← hlen]
    exact List.take_eq_take_min.symm

theorem resize_some {v w : Bytes} {n : Nat} (h : resize v n = some w) :
    n ≤ kMaxSize ∧ w.length = n ∧
      ∀ start k, start + k ≤ v.length → start + k ≤ n → slice w start k = slice v start k := by
  unfold resize at h
  by_cases hn : n ≤ kMaxSize
  · rw [if_pos hn] at h
    cases h
    refine ⟨hn, ?_, fun start k hv hk => ?_⟩
    · simp only [List.length_append, List.length_take, List.length_replicate]
      omega
    · rw [slice_append (by rw [List.length_take]; omega), slice_take hk]
  · rw [if_neg hn] at h
    cases h

/-- Growing and moving to the front keep the readable bytes and make the room. -/
theorem Ok.makeSpace (h : b.Ok) (hlen : b.writeIndex + len < 2 ^ 64) (hs : b.makeSpace len = some b') :
    b'.Ok ∧ b'.bytes = b.bytes ∧ len ≤ b'.writableBytes := by
  have hread := h.readableBytes_eq
  have hwrite := h.writableBytes_eq
  obtain ⟨hf, ho, hr, hsize⟩ := h
  have hfront : kPrependSize = 8 := rfl
  have hmax : kMaxSize = 2 ^ 63 - 1 := rfl
  simp only [Buffer.makeSpace] at hs
  split at hs
  · rename_i hgrow
    obtain ⟨v, hv, rfl⟩ := Option.map_eq_some_iff.mp hs
    obtain ⟨hle, hlength, hsame⟩ := resize_some hv
    have hsum : add b.writeIndex len = b.writeIndex + len := Nat.mod_eq_of_lt hlen
    rw [hsum] at hle hlength hsame
    have hok : Ok { b with buffer := v } :=
      ⟨hf, ho, by dsimp only; omega, by dsimp only; omega⟩
    have hbytes : slice v b.readIndex (b.writeIndex - b.readIndex) = b.bytes :=
      hsame _ _ (by omega) (by omega)
    refine ⟨hok, hbytes, ?_⟩
    rw [hok.writableBytes_eq]
    dsimp only
    omega
  · rename_i henough
    cases hs
    have hsum : add kPrependSize b.readableBytes = kPrependSize + (b.writeIndex - b.readIndex) := by
      rw [hread, add]
      omega
    simp only [add, hwrite, prependableBytes] at henough
    rw [hsum]
    have hok : Ok ⟨copy (b.writeIndex - b.readIndex) b.buffer b.readIndex kPrependSize, kPrependSize,
        kPrependSize + (b.writeIndex - b.readIndex)⟩ := by
      refine ⟨Nat.le_refl _, Nat.le_add_right _ _, ?_, ?_⟩
      · dsimp only
        rw [length_copy]
        omega
      · dsimp only
        rw [length_copy]
        exact hsize
    refine ⟨hok, ?_, ?_⟩
    · simp only [bytes, Nat.add_sub_cancel_left]
      exact slice_copy (by omega) hf
    · rw [hok.writableBytes_eq]
      dsimp only
      rw [length_copy]
      omega

theorem Ok.ensureWritableBytes (h : b.Ok) (hlen : b.writeIndex + len < 2 ^ 64)
    (hs : b.ensureWritableBytes len = some b') :
    b'.Ok ∧ b'.bytes = b.bytes ∧ len ≤ b'.writableBytes := by
  unfold Buffer.ensureWritableBytes at hs
  split at hs
  · exact h.makeSpace hlen hs
  · rename_i hroom
    cases hs
    exact ⟨h, rfl, Nat.le_of_not_lt hroom⟩

/-- Bytes that have room are written behind the readable ones. -/
theorem Ok.written (h : b.Ok) (hroom : data.length ≤ b.writableBytes) :
    ({ b with buffer := write b.buffer b.writeIndex data }.hasWritten data.length).Ok ∧
      ({ b with buffer := write b.buffer b.writeIndex data }.hasWritten data.length).bytes =
        b.bytes ++ data := by
  rw [h.writableBytes_eq] at hroom
  obtain ⟨hf, ho, hr, hsize⟩ := h
  have hmax : kMaxSize = 2 ^ 63 - 1 := rfl
  have hfits : b.writeIndex + data.length ≤ b.buffer.length := by omega
  have hsum : add b.writeIndex data.length = b.writeIndex + data.length :=
    Nat.mod_eq_of_lt (by omega)
  simp only [hasWritten, hsum]
  refine ⟨⟨hf, by dsimp only; omega, ?_, ?_⟩, ?_⟩
  · rw [length_write hfits]
    exact hfits
  · rw [length_write hfits]
    exact hsize
  · have hsplit : b.writeIndex + data.length - b.readIndex = (b.writeIndex - b.readIndex) + data.length := by
      omega
    have hend : b.readIndex + (b.writeIndex - b.readIndex) = b.writeIndex := by omega
    simp only [bytes, hsplit]
    rw [slice_add, hend, slice_write hfits, slice_write_front hfits (by omega)]

theorem Ok.append (h : b.Ok) (hdata : data.length ≤ kMaxSize) (hs : b.append data = some b') :
    b'.Ok ∧ b'.bytes = b.bytes ++ data := by
  have hlen : b.writeIndex + data.length < 2 ^ 64 := by
    have hmax : kMaxSize = 2 ^ 63 - 1 := rfl
    have := h.room
    have := h.size
    omega
  obtain ⟨b₁, hb₁, rfl⟩ := Option.map_eq_some_iff.mp hs
  obtain ⟨hok, hbytes, hroom⟩ := h.ensureWritableBytes hlen hb₁
  rw [← hbytes]
  exact hok.written hroom

/-- The bytes that do not fit go through the stack and are appended. -/
theorem Ok.readFd (h : b.Ok) (hdata : data.length ≤ b.iovecBytes) {n : Int} {savedErrno : Option Int}
    (hs : b.readFd (.ok data) = some (n, savedErrno, b')) :
    n = data.length ∧ savedErrno = none ∧ b'.Ok ∧ b'.bytes = b.bytes ++ data := by
  have hroom : (data.take b.writableBytes).length ≤ b.writableBytes := List.length_take_le _ _
  obtain ⟨hok, hbytes⟩ := h.written hroom
  simp only [Buffer.readFd] at hs
  split at hs
  · rename_i hall
    rw [List.take_of_length_le hall] at hok hbytes hs
    cases hs
    exact ⟨rfl, rfl, hok, hbytes⟩
  · rename_i hmore
    have hmax : kMaxSize = 2 ^ 63 - 1 := rfl
    have hsize := h.size
    have hlength : (data.take b.writableBytes).length = b.writableBytes := by
      rw [List.length_take]
      omega
    have hfull : add b.writeIndex (data.take b.writableBytes).length = b.buffer.length := by
      rw [hlength, add, h.writableBytes_eq, Nat.add_sub_cancel' h.room, Nat.mod_eq_of_lt (by omega)]
    rw [hasWritten, hfull] at hok hbytes
    obtain ⟨b₂, hb₂, heq⟩ := Option.map_eq_some_iff.mp hs
    cases heq
    have hextra : (data.drop b.writableBytes).length ≤ kMaxSize := by
      rw [List.length_drop]
      have hspare : kExtra = 65536 := rfl
      unfold iovecBytes at hdata
      by_cases hfew : b.writableBytes < kExtra
      · rw [if_pos hfew] at hdata
        omega
      · rw [if_neg hfew] at hdata
        omega
    obtain ⟨hok₂, hbytes₂⟩ := hok.append hextra hb₂
    refine ⟨rfl, rfl, hok₂, ?_⟩
    rw [hbytes₂, hbytes, List.append_assoc, List.take_append_drop]

/-- One operation does to the readable bytes what it does to a queue. -/
theorem Ok.step (h : b.Ok) {op : BufferOp} {r : Returned} (hfits : b.Fits op)
    (hs : b.step op = some (b', r)) :
    b'.Ok ∧ b'.bytes = (queueStep b.bytes op).1 ∧ r = (queueStep b.bytes op).2 := by
  cases op with
  | append data =>
    simp only [Buffer.step] at hs
    split at hs
    · rename_i hdata
      obtain ⟨b₁, hb₁, heq⟩ := Option.map_eq_some_iff.mp hs
      cases heq
      obtain ⟨hok, hbytes⟩ := h.append hdata hb₁
      exact ⟨hok, hbytes, rfl⟩
    · cases hs
  | ensureWritableBytes len =>
    obtain ⟨b₁, hb₁, heq⟩ := Option.map_eq_some_iff.mp hs
    cases heq
    obtain ⟨hok, hbytes, -⟩ := h.ensureWritableBytes hfits hb₁
    exact ⟨hok, hbytes, rfl⟩
  | retrieve len =>
    cases hs
    exact ⟨(h.retrieve len).1, (h.retrieve len).2, rfl⟩
  | retrieveAll =>
    cases hs
    exact ⟨h.retrieveAll.1, h.retrieveAll.2, rfl⟩
  | retrieveAsString len =>
    cases hs
    obtain ⟨hok, hbytes, htext⟩ := h.retrieveAsString len
    exact ⟨hok, hbytes, congrArg Returned.text htext⟩
  | retrieveAllAsString =>
    cases hs
    have hall : b.bytes.length ≤ b.readableBytes := by
      rw [h.length_bytes, h.readableBytes_eq]
    obtain ⟨hok, hbytes, htext⟩ := h.retrieveAsString b.readableBytes
    rw [List.drop_of_length_le hall] at hbytes
    rw [List.take_of_length_le hall] at htext
    exact ⟨hok, hbytes, congrArg Returned.text htext⟩
  | readFd answer =>
    cases answer with
    | error errno =>
      cases hs
      exact ⟨h, rfl, rfl⟩
    | ok data =>
      simp only [Buffer.step] at hs
      split at hs
      · rename_i hdata
        obtain ⟨⟨n, savedErrno, b₁⟩, hb₁, heq⟩ := Option.map_eq_some_iff.mp hs
        cases heq
        obtain ⟨rfl, rfl, hok, hbytes⟩ := h.readFd hdata hb₁
        exact ⟨hok, hbytes, rfl⟩
      · cases hs

theorem create_ok {initialSize : Nat} (hsize : initialSize + kPrependSize < 2 ^ 64)
    (hs : create initialSize = some b) : b.Ok ∧ b.bytes = [] := by
  obtain ⟨v, hv, rfl⟩ := Option.map_eq_some_iff.mp hs
  obtain ⟨hle, hlength, -⟩ := resize_some hv
  have hsum : add kPrependSize initialSize = kPrependSize + initialSize :=
    Nat.mod_eq_of_lt (by omega)
  rw [hsum] at hle hlength
  refine ⟨⟨Nat.le_refl _, Nat.le_refl _, ?_, ?_⟩, ?_⟩
  · dsimp only
    omega
  · dsimp only
    omega
  · simp [bytes, slice]

/-- When the sum overflows, the vector is cut or the room is missing. -/
theorem Ok.ensureWritableBytes_overflow (h : b.Ok) (hlen : len < 2 ^ 64)
    (hover : 2 ^ 64 ≤ b.writeIndex + len) :
    ∃ b', b.ensureWritableBytes len = some b' ∧ ¬ (b'.Ok ∧ len ≤ b'.writableBytes) := by
  have hwrite := h.writableBytes_eq
  obtain ⟨hf, ho, hr, hsize⟩ := h
  have hmax : kMaxSize = 2 ^ 63 - 1 := rfl
  -- no vector has that much room
  have hnever : ∀ b' : Buffer, ¬ (b'.Ok ∧ len ≤ b'.writableBytes) := by
    rintro b' ⟨hok, hroom⟩
    have hroom' := hok.writableBytes_eq
    have hsize' := hok.size
    omega
  have hfull : b.writableBytes < len := by omega
  have hgrow : ∃ b', b.makeSpace len = some b' := by
    simp only [Buffer.makeSpace]
    split
    · have hle : add b.writeIndex len ≤ kMaxSize := by
        rw [add]
        omega
      rw [resize, if_pos hle]
      exact ⟨_, rfl⟩
    · exact ⟨_, rfl⟩
  obtain ⟨b', hb'⟩ := hgrow
  refine ⟨b', ?_, hnever b'⟩
  rw [Buffer.ensureWritableBytes, if_pos hfull]
  exact hb'

theorem create_overflow {initialSize : Nat} (hsize : initialSize < 2 ^ 64)
    (hover : 2 ^ 64 ≤ initialSize + kPrependSize) :
    ∃ b, create initialSize = some b ∧ ¬ b.Ok := by
  have hfront : kPrependSize = 8 := rfl
  have hmax : kMaxSize = 2 ^ 63 - 1 := rfl
  have hle : add kPrependSize initialSize ≤ kMaxSize := by
    rw [add]
    omega
  refine ⟨_, by rw [create, resize, if_pos hle]; rfl, ?_⟩
  rintro ⟨-, -, hroom, -⟩
  simp only [List.length_append, List.length_take, List.length_replicate, List.length_nil, add] at hroom
  omega

end

end Buffer

structure Use.Queue (s : Use) : Prop where
  ok : s.buffer.Ok
  bytes : s.buffer.bytes = (queueRun s.ops).1
  returned : s.returned = (queueRun s.ops).2

theorem Use.Queue.step {s s' : Use} {op : BufferOp} (h : s.Queue) (hfits : s.buffer.Fits op)
    (hs : s.step op = some s') : s'.Queue := by
  obtain ⟨⟨b, r⟩, hb, rfl⟩ := Option.map_eq_some_iff.mp hs
  obtain ⟨hok, hbytes, hr⟩ := h.ok.step hfits hb
  refine ⟨hok, ?_, ?_⟩
  · rw [queueRun_concat, ← h.bytes]
    exact hbytes
  · rw [queueRun_concat, ← h.bytes, ← h.returned, ← hr]

/-- From any size and with any operations, as long as no sum of a requested
room overflows, the buffer is a queue of bytes, and `makeSpace` keeps what is
in it and makes the room. At the first sum that does overflow this ends. -/
theorem Buffer.refines_queue {initialSize : Nat} {b₀ : Buffer} {s : Use}
    (hsize : initialSize + kPrependSize < 2 ^ 64) (h₀ : Buffer.create initialSize = some b₀)
    (h : Reached Use.step (fun s op => s.buffer.Fits op) ⟨b₀, [], []⟩ s) :
    (kPrependSize ≤ s.buffer.readIndex ∧ s.buffer.readIndex ≤ s.buffer.writeIndex ∧
        s.buffer.writeIndex ≤ s.buffer.buffer.length) ∧
      (s.buffer.bytes = (queueRun s.ops).1 ∧ s.returned = (queueRun s.ops).2) ∧
      (∀ len b', s.buffer.writeIndex + len < 2 ^ 64 → s.buffer.makeSpace len = some b' →
        b'.bytes = s.buffer.bytes ∧ len ≤ b'.writableBytes) ∧
      ∀ len < 2 ^ 64, 2 ^ 64 ≤ s.buffer.writeIndex + len →
        ∃ b', s.buffer.ensureWritableBytes len = some b' ∧ ¬ (b'.Ok ∧ len ≤ b'.writableBytes) := by
  have hq : s.Queue := by
    refine h.invariant (I := Use.Queue) ?_ fun _ _ _ => Use.Queue.step
    obtain ⟨hok, hempty⟩ := Buffer.create_ok hsize h₀
    exact ⟨hok, hempty, rfl⟩
  refine ⟨⟨hq.ok.front, hq.ok.order, hq.ok.room⟩, ⟨hq.bytes, hq.returned⟩, ?_, ?_⟩
  · intro len b' hfits hb'
    obtain ⟨-, hbytes, hroom⟩ := hq.ok.makeSpace hfits hb'
    exact ⟨hbytes, hroom⟩
  · intro len hlen hover
    exact hq.ok.ensureWritableBytes_overflow hlen hover

theorem Buffer.refines_queue_hello :
    ∃ s, runIf Use.step (fun s op => s.buffer.Fits op) ⟨⟨List.replicate 12 0, 8, 8⟩, [], []⟩
        [.append [104, 101, 108, 108], .retrieveAsString 3, .ensureWritableBytes 2,
          .readFd (.ok [111, 33])] = some s ∧
      s.buffer.bytes = (queueRun s.ops).1 := by
  have hrun : runIf Use.step (fun s op => s.buffer.Fits op) ⟨⟨List.replicate 12 0, 8, 8⟩, [], []⟩
      [.append [104, 101, 108, 108], .retrieveAsString 3, .ensureWritableBytes 2,
        .readFd (.ok [111, 33])] = some _ := rfl
  refine ⟨_, hrun, ?_⟩
  exact (@Buffer.refines_queue 4 ⟨List.replicate 12 0, 8, 8⟩ _ (by decide) rfl (.of_runIf hrun)).2.1.1

/-- After five bytes, room for 2^64 - 10 more cuts the vector to three cells;
and a buffer of 2^64 - 1 bytes is made with seven. -/
theorem Buffer.room_overflow :
    (∃ b₀ s, Buffer.create 0 = some b₀ ∧
      run Use.step ⟨b₀, [], []⟩ [.append [104, 101, 108, 108, 111], .ensureWritableBytes (2 ^ 64 - 10)] =
        some s ∧
      s.buffer.buffer.length = 3 ∧ s.buffer.writeIndex = 13) ∧
    ∃ b, Buffer.create (2 ^ 64 - 1) = some b ∧ ¬ b.Ok := by
  refine ⟨⟨_, _, rfl, rfl, rfl, rfl⟩, ?_⟩
  exact Buffer.create_overflow (by decide) (by decide)

end Myself.Net

