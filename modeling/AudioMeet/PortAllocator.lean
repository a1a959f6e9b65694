import Mathlib.Data.List.Basic

/-! The port pool (`src/port_allocator.h`, `src/port_allocator.cpp`) over the range `[base, base + count)`. -/

namespace AudioMeet

/-- `base_`, `count_` and `next_` hold the values of 16-bit words. -/
structure PortAllocator where
  base_ : Nat
  count_ : Nat
  next_ : Nat
  used_ : List Bool
  base_lt : base_ < 65536
  count_lt : count_ < 65536
  next_lt : 0 < count_ → next_ < count_
  length_used : used_.length = count_

namespace PortAllocator

def new (base count : UInt16) : PortAllocator where
  base_ := base.toNat
  count_ := count.toNat
  next_ := 0
  used_ := List.replicate count.toNat false
  base_lt := base.toNat_lt
  count_lt := count.toNat_lt
  next_lt := id
  length_used := List.length_replicate

/-- `(next_ + j) % count_` -/
def probe (a : PortAllocator) (j : Nat) : Nat := (a.next_ + j) % a.count_

/-- `!used_[i] && is_port_available(static_cast<uint16_t>(base_ + i))` -/
def isFree (a : PortAllocator) (is_port_available : UInt16 → Bool) (i : Nat) : Bool :=
  a.used_[i]? == some false && is_port_available (UInt16.ofNat (a.base_ + i))

/-- `used_[i] = true; next_ = (i + 1) % count_` -/
def take (a : PortAllocator) (i : Nat) : PortAllocator :=
  { a with
    next_ := (i + 1) % a.count_
    used_ := a.used_.set i true
    next_lt := Nat.mod_lt _
    length_used := List.length_set.trans a.length_used }

/-- The allocated port, or nothing when none is available. The port of index `i` is `base_ + i`; only its
    probe narrows it to 16 bits. -/
def allocate (a : PortAllocator) (is_port_available : UInt16 → Bool) : PortAllocator × Option Nat :=
  match (List.range a.count_).find? fun j => a.isFree is_port_available (a.probe j) with
  | some j => (a.take (a.probe j), some (a.base_ + a.probe j))
  | none => (a, none)

def release (a : PortAllocator) (port : UInt16) : PortAllocator :=
  if port.toNat < a.base_ ∨ a.base_ + a.count_ ≤ port.toNat then a
  else
    { a with
      used_ := a.used_.set (port.toNat - a.base_) false
      length_used := List.length_set.trans a.length_used }

/-- `used_[port - base_]` -/
def isUsed (a : PortAllocator) (port : UInt16) : Bool :=
  decide (a.base_ ≤ port.toNat) && a.used_[port.toNat - a.base_]? == some true

end PortAllocator
end AudioMeet
