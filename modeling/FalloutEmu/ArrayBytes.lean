import FalloutEmu.FEArray
import FalloutEmu.Records

/-! # The growable array on the bytes of its allocation -/
namespace FalloutEmu.ArrayBytes
open ByteStore Records

/-- A piece of host memory; an access outside it stops. -/
structure Allocation where
  bytes : ℕ→U8
  length : ℕ

namespace Allocation

def read (a : Allocation) (offset n : ℕ) : Except Stop (List U8) :=
  if offset+n ≤ a.length then .ok (readAt a.bytes offset n) else .error .outOfBounds

def write (a : Allocation) (offset : ℕ) (src : List U8) : Except Stop Allocation :=
  if offset+src.length ≤ a.length then .ok { a with bytes := writeAt a.bytes offset src }
    else .error .outOfBounds

theorem read_eq_ok {a : Allocation} {offset n : ℕ} {bs : List U8} :
    a.read offset n=.ok bs ↔ offset+n ≤ a.length ∧ readAt a.bytes offset n=bs := by
  unfold read
  split <;> simp [*]

theorem write_eq_ok {a a' : Allocation} {offset : ℕ} {src : List U8} :
    a.write offset src=.ok a' ↔ offset+src.length ≤ a.length ∧
    ⟨writeAt a.bytes offset src,a.length⟩=a' := by
  unfold write
  split <;> simp [*]

end Allocation

/-- `_fe_array_alloc`, which succeeds; `fresh` is what `malloc` leaves in the bytes. -/
def alloc (allocate_zeroed : Bool) (fresh : ℕ→U8) (size : U32) : Allocation :=
  ⟨if allocate_zeroed then fun _ => 0 else fresh,size.toNat⟩

/-- `FEArray` with its fields as they are in memory; `cleanup` says whether the function is set. -/
structure RawArray where
  p : Allocation
  cleanup : Bool
  size : U32
  capacity : U32
  element_size : U32
  allocate_zeroed : Bool

def FENotFound : U32 := 0xffffffff

namespace RawArray

def create (fresh : ℕ→U8) (element_size capacity : U32) (allocate_zeroed : Bool) : RawArray where
  p := alloc allocate_zeroed fresh (element_size*capacity)
  cleanup := false
  size := 0
  capacity := capacity
  element_size := element_size
  allocate_zeroed := allocate_zeroed

def indexAddr (array : RawArray) (index : U32) : ℕ := (array.element_size*index).toNat

/-- The growth in `fe_array_append`. -/
def grow (array : RawArray) (fresh : ℕ→U8) : Except Stop RawArray := do
  let capacity := array.capacity*3/2+1
  let p := alloc array.allocate_zeroed fresh (capacity*array.element_size)
  let used ← array.p.read 0 (array.size*array.element_size).toNat
  let p ← p.write 0 used
  .ok { array with p := p, capacity := capacity }

def append (array : RawArray) (fresh : ℕ→U8) (element : Allocation) : Except Stop RawArray := do
  let array ← if array.size ≥ array.capacity then array.grow fresh else .ok array
  let el ← element.read 0 array.element_size.toNat
  let p ← array.p.write (array.size*array.element_size).toNat el
  .ok { array with p := p, size := array.size+1 }

/-- The second half of `fe_array_insert`, behind the growth: the shift through `temp` and the new
element. -/
def shiftIn (array : RawArray) (index : U32) (element : Allocation) : Except Stop RawArray := do
  let src := (array.element_size*index).toNat
  let dst := (array.element_size*(index+1)).toNat
  let temp ← array.p.read src (array.element_size*array.size-index).toNat
  let p ← array.p.write dst temp
  let el ← element.read 0 array.element_size.toNat
  let p ← p.write src el
  .ok { array with p := p }

/-- `fe_array_insert`: the array and the result. `dummy` is what its first allocation holds. -/
def insert (build : Build) (array : RawArray) (fresh dummy : ℕ→U8) (index : U32)
    (element : Allocation) :
    Except Stop (RawArray×Bool) := do
  assertThat build (index<array.size)
  if index ≥ array.size then .ok (array,false)
  else if array.capacity-array.size<1 then do
    let array ← array.append fresh (alloc array.allocate_zeroed dummy array.element_size)
    let array ← array.shiftIn index element
    .ok (array,true)
  else do
    let array ← array.shiftIn index element
    .ok (array,true)

/-- The call of `cleanup` in `fe_array_remove_index`: the elements it is handed. -/
def cleaned (array : RawArray) (index : U32) : Except Stop (List (List U8)) :=
  if array.cleanup then do
    let el ← array.p.read (array.indexAddr index) array.element_size.toNat
    .ok [el]
  else .ok []

/-- The move of the elements behind the removed one, through `temp`. -/
def shiftOut (array : RawArray) (index : U32) : Except Stop Allocation :=
  if array.size-1>index then do
    let size := array.element_size*(array.size-1-index)
    let temp ← array.p.read (array.indexAddr (index+1)) size.toNat
    array.p.write (array.indexAddr index) temp
  else .ok array.p

/-- `fe_array_remove_index`: the array, the result, and the elements handed to `cleanup`. -/
def removeIndex (build : Build) (array : RawArray) (index : U32) :
    Except Stop (RawArray×Bool×List (List U8)) := do
  assertThat build (index<array.size)
  if index ≥ array.size then .ok (array,false,[])
  else do
    let cleaned ← array.cleaned index
    let p ← array.shiftOut index
    .ok ({ array with p := p, size := array.size-1 },true,cleaned)

def swap (array : RawArray) (index1 index2 : U32) : Except Stop RawArray := do
  let n := array.element_size.toNat
  let tmp ← array.p.read (array.indexAddr index1) n
  let p ← array.p.write (array.indexAddr index1) (← array.p.read (array.indexAddr index2) n)
  let p ← p.write (array.indexAddr index2) tmp
  .ok { array with p := p }

/-- The loop of `fe_array_index_of` over `n` elements from `i` on. -/
def indexOfFrom (array : RawArray) (element : Allocation) : ℕ→U32→Except Stop U32
  | 0,_ => .ok FENotFound
  | n+1,i => do
    let ref ← array.p.read (array.indexAddr i) array.element_size.toNat
    let el ← element.read 0 array.element_size.toNat
    if ref=el then .ok i else array.indexOfFrom element n (i+1)

def indexOf (array : RawArray) (element : Allocation) : Except Stop U32 :=
  array.indexOfFrom element array.size.toNat 0

end RawArray
end FalloutEmu.ArrayBytes
