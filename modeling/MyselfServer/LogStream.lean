import MyselfServer.Text

/-!
# Log buffers

`FixedBuffer`: of the array only what lies before `cur_` is ever read, so a
buffer is these bytes. The NUL behind them needs room, too.
-/

namespace Myself

open Text

@[ext]
structure FixedBuffer (SIZE : Nat) where
  data : Bytes
  room : data.length < SIZE

namespace FixedBuffer

variable {SIZE : Nat}

def length (b : FixedBuffer SIZE) : Nat := b.data.length

def avail (b : FixedBuffer SIZE) : Nat := SIZE - b.length - 1

/-- What does not fit is dropped as a whole. -/
def append (b : FixedBuffer SIZE) (data : Bytes) : FixedBuffer SIZE :=
  if h : b.avail > data.length then
    ⟨b.data ++ data, by
      simp only [avail, length] at h
      rw [List.length_append]
      omega⟩
  else b

def reset (b : FixedBuffer SIZE) : FixedBuffer SIZE := ⟨[], Nat.zero_lt_of_lt b.room⟩

@[simp]
theorem data_reset (b : FixedBuffer SIZE) : b.reset.data = [] := rfl

theorem data_append {b : FixedBuffer SIZE} {data : Bytes} (h : b.avail > data.length) :
    (b.append data).data = b.data ++ data := by
  rw [append, dif_pos h]

end FixedBuffer

def kLargeBuffer : Nat := 4 * 1024 * 1024

end Myself
