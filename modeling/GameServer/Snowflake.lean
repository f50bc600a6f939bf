import GameServer.Go
import Mathlib.Algebra.Order.Ring.Int
import Mathlib.Data.Nat.Bitwise

/-!
# Generated ids

`Generator` packs a millisecond since its epoch, its node id and a sequence
number into 64 bits. Times are Unix milliseconds. The clock of a generator is
the list of what it is going to read, in any order; a call that needs more
readings than there are does not return.
-/

namespace GameServer.IdGen

def nodeBits : UInt64 := 10
def sequenceBits : UInt64 := 12
def maxNodeID : UInt16 := 1023
def maxSequence : UInt16 := 4095

def defaultEpoch : Int64 := 1767225600000

structure Generator where
  nodeID : UInt16
  epochMilli : Int64
  now : List Int64
  lastMilli : Int64
  sequence : UInt16
  deriving DecidableEq

structure Parts where
  timestamp : Int64
  nodeID : UInt16
  sequence : UInt16
  deriving DecidableEq

def newWithClock (nodeID : UInt16) (epoch : Int64) (now : Option (List Int64)) : Except GoErr Generator :=
  if maxNodeID < nodeID then .error (.new "id generator node id is out of range")
  else
    match now with
    | none => .error (.new "id generator clock is required")
    | some now => .ok ⟨nodeID, epoch, now, -1, 0⟩

namespace Generator

def milliAt (g : Generator) (reading : Int64) : Int64 :=
  let milli := reading - g.epochMilli
  if milli < 0 then 0 else milli

def currentMilli (g : Generator) : Option (Int64 × Generator) :=
  match g.now with
  | [] => none
  | reading :: now => some (g.milliAt reading, { g with now })

def waitNextMilli (g : Generator) (previous : Int64) : List Int64 → Option (Int64 × Generator)
  | [] => none
  | reading :: now =>
    let milli := g.milliAt reading
    if milli > previous then some (milli, { g with now }) else waitNextMilli g previous now

def pack (milli : Int64) (nodeID sequence : UInt16) : UInt64 :=
  milli.toUInt64 <<< (nodeBits + sequenceBits) ||| nodeID.toUInt64 <<< sequenceBits ||| sequence.toUInt64

def issue (g : Generator) (milli : Int64) (sequence : UInt16) : UInt64 × Generator :=
  (pack milli g.nodeID sequence, { g with lastMilli := milli, sequence })

def next (g : Generator) : Option (UInt64 × Generator) := do
  let (milli, g) ← g.currentMilli
  let milli := if milli < g.lastMilli then g.lastMilli else milli
  if milli = g.lastMilli then
    if g.sequence = maxSequence then
      let (milli, g) ← g.waitNextMilli g.lastMilli g.now
      return g.issue milli 0
    else return g.issue milli (g.sequence + 1)
  else return g.issue milli 0

def parse (g : Generator) (id : UInt64) : Parts where
  timestamp := g.epochMilli + (id >>> (nodeBits + sequenceBits)).toInt64
  nodeID := ((id >>> sequenceBits) &&& maxNodeID.toUInt64).toUInt16
  sequence := (id &&& maxSequence.toUInt64).toUInt16

def nexts : Nat → Generator → Option (List (UInt64 × Generator))
  | 0, _ => some []
  | n + 1, g => do
    let (id, g) ← g.next
    let rest ← g.nexts n
    return (id, g) :: rest

/-! ## The fields of an id -/

theorem toNat_pack {milli : Int64} {nodeID sequence : UInt16} (h₀ : 0 ≤ milli.toInt) (hmilli : milli.toInt < 2 ^ 42)
    (hnode : nodeID.toNat < 2 ^ 10) (hsequence : sequence.toNat < 2 ^ 12) :
    (pack milli nodeID sequence).toNat = milli.toInt.toNat * 2 ^ 22 + nodeID.toNat * 2 ^ 12 + sequence.toNat := by
  have hm : milli.toUInt64.toNat = milli.toInt.toNat := Int64.toNat_toUInt64_of_le (Int64.le_iff_toInt_le.mpr h₀)
  have hm' : milli.toInt.toNat < 2 ^ 42 := by omega
  have hhigh : milli.toInt.toNat <<< 22 % 2 ^ 64 = milli.toInt.toNat <<< 22 := by
    apply Nat.mod_eq_of_lt
    rw [Nat.shiftLeft_eq]
    omega
  have hmiddle : nodeID.toNat <<< 12 % 2 ^ 64 = nodeID.toNat <<< 12 := by
    apply Nat.mod_eq_of_lt
    rw [Nat.shiftLeft_eq]
    omega
  have hlow : nodeID.toNat <<< 12 ||| sequence.toNat = nodeID.toNat * 2 ^ 12 + sequence.toNat := by
    rw [← Nat.shiftLeft_add_eq_or_of_lt hsequence, Nat.shiftLeft_eq]
  have hlow' : nodeID.toNat * 2 ^ 12 + sequence.toNat < 2 ^ 22 := by omega
  have h22 : (nodeBits + sequenceBits).toNat % 64 = 22 := rfl
  have h12 : sequenceBits.toNat % 64 = 12 := rfl
  rw [pack, UInt64.toNat_or, UInt64.toNat_or, UInt64.toNat_shiftLeft, UInt64.toNat_shiftLeft, UInt16.toNat_toUInt64,
    UInt16.toNat_toUInt64, hm, h22, h12, hhigh, hmiddle, Nat.or_assoc, hlow, ← Nat.shiftLeft_add_eq_or_of_lt hlow',
    Nat.shiftLeft_eq]
  omega

theorem parse_pack (g : Generator) {milli : Int64} {nodeID sequence : UInt16} (h₀ : 0 ≤ milli.toInt)
    (hmilli : milli.toInt < 2 ^ 42) (hnode : nodeID.toNat < 2 ^ 10) (hsequence : sequence.toNat < 2 ^ 12) :
    g.parse (pack milli nodeID sequence) = ⟨g.epochMilli + milli, nodeID, sequence⟩ := by
  have hid := toNat_pack h₀ hmilli hnode hsequence
  have hhigh : pack milli nodeID sequence >>> (nodeBits + sequenceBits) = milli.toUInt64 := by
    apply UInt64.toNat_inj.mp
    have h22 : (nodeBits + sequenceBits).toNat % 64 = 22 := rfl
    have hm : milli.toUInt64.toNat = milli.toInt.toNat := Int64.toNat_toUInt64_of_le (Int64.le_iff_toInt_le.mpr h₀)
    rw [UInt64.toNat_shiftRight, h22, hid, Nat.shiftRight_eq_div_pow, hm]
    omega
  have hmiddle : ((pack milli nodeID sequence >>> sequenceBits) &&& maxNodeID.toUInt64).toUInt16 = nodeID := by
    apply UInt16.toNat_inj.mp
    have h12 : sequenceBits.toNat % 64 = 12 := rfl
    have hmask : maxNodeID.toUInt64.toNat = 2 ^ 10 - 1 := rfl
    rw [UInt64.toNat_toUInt16, UInt64.toNat_and, UInt64.toNat_shiftRight, h12, hmask, Nat.and_two_pow_sub_one_eq_mod,
      Nat.shiftRight_eq_div_pow, hid]
    omega
  have hlow : (pack milli nodeID sequence &&& maxSequence.toUInt64).toUInt16 = sequence := by
    apply UInt16.toNat_inj.mp
    have hmask : maxSequence.toUInt64.toNat = 2 ^ 12 - 1 := rfl
    rw [UInt64.toNat_toUInt16, UInt64.toNat_and, hmask, Nat.and_two_pow_sub_one_eq_mod, hid]
    omega
  rw [parse, hhigh, hmiddle, hlow]
  rfl

/-! ## One call -/

/-- What is left to read is less than `2 ^ 42` ms after the epoch, and not so
long before it that the difference overflows. -/
def Steady (epoch : Int64) (now : List Int64) : Prop :=
  ∀ reading ∈ now, -2 ^ 63 ≤ reading.toInt - epoch.toInt ∧ reading.toInt - epoch.toInt < 2 ^ 42

structure Valid (g : Generator) : Prop where
  node : g.nodeID.toNat < 2 ^ 10
  sequence : g.sequence.toNat < 2 ^ 12
  first : -1 ≤ g.lastMilli.toInt
  last : g.lastMilli.toInt < 2 ^ 42
  timestamp : g.epochMilli.toInt + g.lastMilli.toInt < 2 ^ 63
  steady : Steady g.epochMilli g.now

variable {g g' : Generator}

theorem milliAt_bounds {reading : Int64} (h : -2 ^ 63 ≤ reading.toInt - g.epochMilli.toInt)
    (h' : reading.toInt - g.epochMilli.toInt < 2 ^ 42) :
    0 ≤ (g.milliAt reading).toInt ∧ (g.milliAt reading).toInt < 2 ^ 42 ∧
      g.epochMilli.toInt + (g.milliAt reading).toInt < 2 ^ 63 ∧
      reading.toInt ≤ g.epochMilli.toInt + (g.milliAt reading).toInt := by
  have hsub : (reading - g.epochMilli).toInt = reading.toInt - g.epochMilli.toInt := by
    rw [Int64.toInt_sub]
    apply Int.bmod_eq_of_le <;> omega
  have hreading := reading.toInt_lt
  have hepoch := g.epochMilli.toInt_lt
  have hzero : (0 : Int64).toInt = 0 := rfl
  unfold milliAt
  by_cases hneg : reading - g.epochMilli < 0
  · rw [if_pos hneg, hzero]
    rw [Int64.lt_iff_toInt_lt, hsub, hzero] at hneg
    omega
  · rw [if_neg hneg, hsub]
    rw [Int64.lt_iff_toInt_lt, hsub, hzero] at hneg
    omega

structure Advances (g : Generator) (id : UInt64) (g' : Generator) : Prop where
  id : id = pack g'.lastMilli g.nodeID g'.sequence
  node : g'.nodeID = g.nodeID
  epoch : g'.epochMilli = g.epochMilli
  now : g'.now <:+ g.now
  later : g.lastMilli.toInt < g'.lastMilli.toInt ∧ (∃ r ∈ g.now, g'.lastMilli = g.milliAt r) ∧ g'.sequence = 0 ∨
    g'.lastMilli = g.lastMilli ∧ (∃ r ∈ g.now, g.milliAt r ≤ g.lastMilli) ∧ g.sequence ≠ maxSequence ∧
      g'.sequence = g.sequence + 1

theorem waitNextMilli_some {previous milli : Int64} : ∀ {now : List Int64},
    g.waitNextMilli previous now = some (milli, g') →
      previous < milli ∧ ∃ before reading, now = before ++ reading :: g'.now ∧ milli = g.milliAt reading ∧
        g' = { g with now := g'.now }
  | [], h => by cases h
  | reading :: now, h => by
    unfold waitNextMilli at h
    dsimp only at h
    split at h
    · rename_i hlater
      cases h
      exact ⟨hlater, [], reading, rfl, rfl, rfl⟩
    · obtain ⟨hlater, before, r, heq, hmilli, hg⟩ := waitNextMilli_some h
      exact ⟨hlater, reading :: before, r, by rw [heq]; rfl, hmilli, hg⟩

theorem next_eq {reading : Int64} {now : List Int64} (h : g.now = reading :: now) :
    g.next =
      if g.lastMilli < g.milliAt reading then some (issue { g with now } (g.milliAt reading) 0)
      else if g.sequence = maxSequence then (waitNextMilli { g with now } g.lastMilli now).map fun r => issue r.2 r.1 0
      else some (issue { g with now } g.lastMilli (g.sequence + 1)) := by
  obtain ⟨node, epoch, _, last, sequence⟩ := g
  cases h
  simp only [next, currentMilli, Option.bind_eq_bind, Option.bind_some, Option.pure_def]
  generalize (Generator.mk node epoch (reading :: now) last sequence).milliAt reading = milli
  by_cases hlater : last < milli
  · have hback : ¬ milli < last := Int64.lt_asymm hlater
    have hne : milli ≠ last := fun heq => Int64.lt_irrefl (heq ▸ hlater)
    rw [if_neg hback, if_neg hne, if_pos hlater]
  · have hlast : (if milli < last then last else milli) = last := by
      by_cases hback : milli < last
      · rw [if_pos hback]
      · rw [if_neg hback]
        exact Int64.le_antisymm (Int64.not_lt.mp hlater) (Int64.not_lt.mp hback)
    rw [hlast, if_pos rfl, if_neg hlater, Option.map_eq_bind]
    rfl

theorem next_some {id : UInt64} (h : g.next = some (id, g')) : g.Advances id g' := by
  match hnow : g.now with
  | [] =>
    simp [next, currentMilli, hnow] at h
  | reading :: now =>
    rw [next_eq hnow] at h
    have hread : reading ∈ g.now := hnow ▸ .head _
    split at h
    · rename_i hlater
      cases h
      exact ⟨rfl, rfl, rfl, ⟨[reading], hnow.symm⟩, .inl ⟨Int64.lt_iff_toInt_lt.mp hlater, ⟨reading, hread, rfl⟩, rfl⟩⟩
    · rename_i hlater
      split at h
      · obtain ⟨⟨milli, g₁⟩, hwait, hid⟩ := Option.map_eq_some_iff.mp h
        obtain ⟨hlt, before, r, heq, hr, hg⟩ := waitNextMilli_some hwait
        have hlast : g.now = (reading :: before ++ [r]) ++ g₁.now := by simp [hnow, heq]
        cases hid
        rw [hg]
        exact ⟨rfl, rfl, rfl, ⟨_, hlast.symm⟩, .inl ⟨Int64.lt_iff_toInt_lt.mp hlt, ⟨r, by simp [hlast], hr⟩, rfl⟩⟩
      · rename_i hfull
        cases h
        exact ⟨rfl, rfl, rfl, ⟨[reading], hnow.symm⟩, .inr ⟨rfl, ⟨reading, hread, Int64.not_lt.mp hlater⟩, hfull, rfl⟩⟩

theorem waitNextMilli_eq_none {previous : Int64} : ∀ {now : List Int64},
    g.waitNextMilli previous now = none ↔ ∀ reading ∈ now, g.milliAt reading ≤ previous
  | [] => by simp [waitNextMilli]
  | reading :: now => by
    unfold waitNextMilli
    dsimp only
    split
    · rename_i hlater
      simp [Int64.not_le.mpr hlater]
    · rename_i hlater
      simp [waitNextMilli_eq_none, Int64.not_lt.mp hlater]

theorem next_eq_none (g : Generator) : g.next = none ↔
    g.now = [] ∨ g.sequence = maxSequence ∧ ∀ reading ∈ g.now, g.milliAt reading ≤ g.lastMilli := by
  match hnow : g.now with
  | [] => simp [next, currentMilli, hnow]
  | reading :: now =>
    rw [next_eq hnow]
    split
    · rename_i hlater
      simp [Int64.not_le.mpr hlater]
    · rename_i hlater
      split
      · rename_i hfull
        rw [Option.map_eq_none_iff, waitNextMilli_eq_none]
        simp only [List.mem_cons, forall_eq_or_imp, Int64.not_lt.mp hlater, hfull, true_and, reduceCtorEq, false_or]
        rfl
      · rename_i hfull
        simp [hfull]

theorem toNat_succ {sequence : UInt16} (hfull : sequence ≠ maxSequence) (h : sequence.toNat < 2 ^ 12) :
    (sequence + 1).toNat = sequence.toNat + 1 ∧ sequence.toNat + 1 < 2 ^ 12 := by
  have hne : sequence.toNat ≠ 4095 := fun heq => hfull (UInt16.toNat_inj.mp heq)
  have hone : (1 : UInt16).toNat = 1 := rfl
  rw [UInt16.toNat_add, hone]
  omega

namespace Advances

variable {g g' : Generator} {id : UInt64}

theorem valid (h : g.Advances id g') (hg : g.Valid) : g'.Valid ∧ 0 ≤ g'.lastMilli.toInt := by
  have hnode : g'.nodeID.toNat < 2 ^ 10 := h.node ▸ hg.node
  have hsteady : Steady g'.epochMilli g'.now := fun reading hread => h.epoch ▸ hg.steady reading (h.now.subset hread)
  rcases h.later with ⟨-, ⟨r, hr, heq⟩, hsequence⟩ | ⟨heq, ⟨r, hr, hle⟩, hfull, hsequence⟩
  · obtain ⟨hfirst, hlast, hstamp, -⟩ := milliAt_bounds (hg.steady r hr).1 (hg.steady r hr).2
    rw [← heq] at hfirst hlast hstamp
    have hzero : g'.sequence.toNat < 2 ^ 12 := by simp [hsequence]
    exact ⟨⟨hnode, hzero, by omega, hlast, h.epoch ▸ hstamp, hsteady⟩, hfirst⟩
  · obtain ⟨hfirst, -, -, -⟩ := milliAt_bounds (hg.steady r hr).1 (hg.steady r hr).2
    have hle' := Int64.le_iff_toInt_le.mp hle
    have hnext : g'.sequence.toNat < 2 ^ 12 := by
      obtain ⟨hsucc, hlt⟩ := toNat_succ hfull hg.sequence
      rw [hsequence, hsucc]
      exact hlt
    rw [← heq] at hle'
    exact ⟨⟨hnode, hnext, by omega, heq ▸ hg.last, h.epoch ▸ heq ▸ hg.timestamp, hsteady⟩, by omega⟩

theorem lastMilli_le (h : g.Advances id g') : g.lastMilli.toInt ≤ g'.lastMilli.toInt := by
  rcases h.later with ⟨hlt, -, -⟩ | ⟨heq, -, -, -⟩
  · exact Int.le_of_lt hlt
  · exact Int.le_of_eq (congrArg Int64.toInt heq.symm)

theorem lt_id (h : g.Advances id g') (hg : g.Valid) (hfirst : 0 ≤ g.lastMilli.toInt) :
    pack g.lastMilli g.nodeID g.sequence < id := by
  obtain ⟨hg', hfirst'⟩ := h.valid hg
  have hnode := hg.node
  have hsequence := hg.sequence
  rw [UInt64.lt_iff_toNat_lt, h.id, toNat_pack hfirst hg.last hg.node hg.sequence,
    toNat_pack hfirst' hg'.last hg.node hg'.sequence]
  rcases h.later with ⟨hlt, -, -⟩ | ⟨heq, -, hfull, hnext⟩
  · omega
  · obtain ⟨hsucc, -⟩ := toNat_succ hfull hg.sequence
    rw [heq, hnext, hsucc]
    omega

end Advances

/-! ## Successive calls -/

structure Issued (g : Generator) (a : UInt64 × Generator) : Prop where
  id : a.1 = pack a.2.lastMilli g.nodeID a.2.sequence
  valid : a.2.Valid
  first : 0 ≤ a.2.lastMilli.toInt
  node : a.2.nodeID = g.nodeID
  epoch : a.2.epochMilli = g.epochMilli
  later : g.lastMilli.toInt ≤ a.2.lastMilli.toInt
  lt_id : 0 ≤ g.lastMilli.toInt → pack g.lastMilli g.nodeID g.sequence < a.1

theorem Advances.issued {id : UInt64} (h : g.Advances id g') (hg : g.Valid) : g.Issued (id, g') where
  id := h.id
  valid := (h.valid hg).1
  first := (h.valid hg).2
  node := h.node
  epoch := h.epoch
  later := h.lastMilli_le
  lt_id := h.lt_id hg

theorem Issued.after {id : UInt64} {a : UInt64 × Generator} (h : g'.Issued a) (hnext : g.Issued (id, g')) :
    id < a.1 := by
  have hid : id = pack g'.lastMilli g'.nodeID g'.sequence := hnext.node ▸ hnext.id
  rw [hid]
  exact h.lt_id hnext.first

theorem Issued.trans {id : UInt64} {a : UInt64 × Generator} (hnext : g.Issued (id, g')) (h : g'.Issued a) :
    g.Issued a where
  id := hnext.node ▸ h.id
  valid := h.valid
  first := h.first
  node := h.node.trans hnext.node
  epoch := h.epoch.trans hnext.epoch
  later := Int.le_trans hnext.later h.later
  lt_id := fun hfirst => UInt64.lt_trans (hnext.lt_id hfirst) (h.after hnext)

theorem nexts_issued : ∀ {n : Nat} {g : Generator} {out : List (UInt64 × Generator)}, g.Valid → g.nexts n = some out →
    (∀ a ∈ out, g.Issued a) ∧ out.Pairwise fun a b => a.1 < b.1 ∧ a.2.lastMilli.toInt ≤ b.2.lastMilli.toInt
  | 0, g, out, hg, h => by
    cases h
    exact ⟨by simp, .nil⟩
  | n + 1, g, out, hg, h => by
    obtain ⟨⟨id, g'⟩, hnext, h⟩ := Option.bind_eq_some_iff.mp h
    obtain ⟨rest, hrest, h⟩ := Option.bind_eq_some_iff.mp h
    cases h
    have hissued := (next_some hnext).issued hg
    obtain ⟨hall, hpairs⟩ := nexts_issued hissued.valid hrest
    constructor
    · intro a ha
      cases ha with
      | head => exact hissued
      | tail _ ha => exact hissued.trans (hall a ha)
    · exact .cons (fun a ha => ⟨(hall a ha).after hissued, (hall a ha).later⟩) hpairs

theorem Issued.parse {a : UInt64 × Generator} (h : g.Issued a) :
    (g.parse a.1).nodeID = g.nodeID ∧ (g.parse a.1).sequence = a.2.sequence ∧
      (g.parse a.1).timestamp.toInt = g.epochMilli.toInt + a.2.lastMilli.toInt := by
  have hparse := parse_pack g h.first h.valid.last (h.node ▸ h.valid.node) h.valid.sequence
  have hstamp := h.epoch ▸ h.valid.timestamp
  have hepoch := g.epochMilli.le_toInt
  have hfirst := h.first
  rw [h.id, hparse]
  refine ⟨rfl, rfl, ?_⟩
  show (g.epochMilli + a.2.lastMilli).toInt = _
  rw [Int64.toInt_add]
  apply Int.bmod_eq_of_le <;> omega

theorem Valid.waits (hg : g.Valid) (h : g.next = none) :
    g.now = [] ∨ g.sequence = maxSequence ∧ ∀ reading ∈ g.now, reading.toInt ≤ g.epochMilli.toInt + g.lastMilli.toInt := by
  rcases (next_eq_none g).mp h with hnow | ⟨hfull, hlate⟩
  · exact .inl hnow
  · right
    refine ⟨hfull, fun reading hread => ?_⟩
    obtain ⟨-, -, -, hle⟩ := milliAt_bounds (hg.steady reading hread).1 (hg.steady reading hread).2
    have hlast := Int64.le_iff_toInt_le.mp (hlate reading hread)
    omega

theorem newWithClock_valid {nodeID : UInt16} {epoch : Int64} {now : List Int64}
    (hnew : newWithClock nodeID epoch (some now) = .ok g) (hclock : Steady epoch now) :
    g.Valid ∧ g.nodeID = nodeID ∧ g.epochMilli = epoch := by
  unfold newWithClock at hnew
  split at hnew
  · cases hnew
  · rename_i hnode
    cases hnew
    have hle : nodeID.toNat ≤ 1023 := UInt16.le_iff_toNat_le.mp (UInt16.not_lt.mp hnode)
    have hlast : (-1 : Int64).toInt = -1 := rfl
    have hepoch := epoch.toInt_lt
    have hstamp : epoch.toInt + (-1 : Int64).toInt < 2 ^ 63 := by omega
    have hsequence : (0 : UInt16).toNat < 2 ^ 12 := by decide
    exact ⟨⟨Nat.lt_succ_of_le hle, hsequence, Int.le_of_eq hlast.symm, hlast ▸ by decide, hstamp, hclock⟩, rfl, rfl⟩

end Generator

/-- While the clock reads less than `2 ^ 42` ms after the epoch and at most
`2 ^ 63` ms before it, ids increase and are parsed back to what they were made
of, no two nodes share one, and a call that does not return has used up the
sequence of a millisecond that its clock never reads past. -/
theorem nexts_increase {nodeID : UInt16} {epoch : Int64} {now : List Int64} {g : Generator} {n : Nat}
    {out : List (UInt64 × Generator)} (hnew : newWithClock nodeID epoch (some now) = .ok g)
    (hclock : ∀ reading ∈ now, -2 ^ 63 ≤ reading.toInt - epoch.toInt ∧ reading.toInt - epoch.toInt < 2 ^ 42)
    (hrun : g.nexts n = some out) :
    (out.Pairwise fun a b => a.1 < b.1 ∧ a.2.lastMilli.toInt ≤ b.2.lastMilli.toInt) ∧
      (∀ a ∈ out, (g.parse a.1).nodeID = nodeID ∧ (g.parse a.1).sequence = a.2.sequence ∧
        (g.parse a.1).timestamp.toInt = epoch.toInt + a.2.lastMilli.toInt) ∧
      (∀ g', (g' = g ∨ ∃ id, (id, g') ∈ out) → g'.next = none → g'.now = [] ∨ g'.sequence = maxSequence ∧
        ∀ reading ∈ g'.now, reading.toInt ≤ epoch.toInt + g'.lastMilli.toInt) ∧
      ∀ (nodeID' : UInt16) (epoch' : Int64) (now' : List Int64) (g' : Generator) (n' : Nat)
        (out' : List (UInt64 × Generator)), newWithClock nodeID' epoch' (some now') = .ok g' →
          (∀ reading ∈ now', -2 ^ 63 ≤ reading.toInt - epoch'.toInt ∧ reading.toInt - epoch'.toInt < 2 ^ 42) →
            g'.nexts n' = some out' → nodeID ≠ nodeID' → ∀ a ∈ out, ∀ b ∈ out', a.1 ≠ b.1 := by
  obtain ⟨hg, hnode, hepoch⟩ := Generator.newWithClock_valid hnew hclock
  obtain ⟨hall, hpairs⟩ := Generator.nexts_issued hg hrun
  have hparse : ∀ a ∈ out, (g.parse a.1).nodeID = nodeID ∧ (g.parse a.1).sequence = a.2.sequence ∧
      (g.parse a.1).timestamp.toInt = epoch.toInt + a.2.lastMilli.toInt := by
    intro a ha
    rw [← hnode, ← hepoch]
    exact (hall a ha).parse
  refine ⟨hpairs, hparse, ?_, ?_⟩
  · intro g' hg'
    rcases hg' with rfl | ⟨id, hmem⟩
    · rw [← hepoch]
      exact hg.waits
    · rw [← hepoch, ← (hall _ hmem).epoch]
      exact (hall _ hmem).valid.waits
  · intro nodeID' epoch' now' g' n' out' hnew' hclock' hrun' hne a ha b hb heq
    obtain ⟨hg', hnode', -⟩ := Generator.newWithClock_valid hnew' hclock'
    obtain ⟨hall', -⟩ := Generator.nexts_issued hg' hrun'
    -- The node id does not depend on the epoch an id is parsed with.
    have hsame : (g.parse b.1).nodeID = (g'.parse b.1).nodeID := rfl
    apply hne
    rw [← (hparse a ha).1, heq, hsame, (hall' b hb).parse.1, hnode']

theorem nexts_increase_back : ∃ g g' out out', newWithClock 7 defaultEpoch
      (some [defaultEpoch + 5, defaultEpoch + 3, defaultEpoch + 9]) = .ok g ∧ g.nexts 3 = some out ∧
    newWithClock 8 defaultEpoch (some [defaultEpoch - 5]) = .ok g' ∧ g'.nexts 1 = some out' ∧
    (out.Pairwise fun a b => a.1 < b.1 ∧ a.2.lastMilli.toInt ≤ b.2.lastMilli.toInt) ∧
    ∀ a ∈ out, ∀ b ∈ out', a.1 ≠ b.1 := by
  have hclock : ∀ reading ∈ [defaultEpoch + 5, defaultEpoch + 3, defaultEpoch + 9],
      -2 ^ 63 ≤ reading.toInt - defaultEpoch.toInt ∧ reading.toInt - defaultEpoch.toInt < 2 ^ 42 := by
    simp only [List.forall_mem_cons, List.not_mem_nil, false_implies, implies_true, and_true]
    decide +kernel
  have hclock' : ∀ reading ∈ [defaultEpoch - 5],
      -2 ^ 63 ≤ reading.toInt - defaultEpoch.toInt ∧ reading.toInt - defaultEpoch.toInt < 2 ^ 42 := by
    simp only [List.forall_mem_cons, List.not_mem_nil, false_implies, implies_true, and_true]
    decide +kernel
  obtain ⟨g, hnew⟩ : ∃ g, newWithClock 7 defaultEpoch (some [defaultEpoch + 5, defaultEpoch + 3, defaultEpoch + 9]) = .ok g :=
    ⟨_, rfl⟩
  obtain ⟨g', hnew'⟩ : ∃ g, newWithClock 8 defaultEpoch (some [defaultEpoch - 5]) = .ok g := ⟨_, rfl⟩
  obtain ⟨out, hrun⟩ : ∃ out, g.nexts 3 = some out := by
    cases hnew
    exact ⟨_, rfl⟩
  obtain ⟨out', hrun'⟩ : ∃ out, g'.nexts 1 = some out := by
    cases hnew'
    exact ⟨_, rfl⟩
  obtain ⟨hpairs, -, -, hnodes⟩ := nexts_increase hnew hclock hrun
  exact ⟨g, g', out, out', hnew, hrun, hnew', hrun', hpairs,
    hnodes 8 defaultEpoch _ g' 1 out' hnew' hclock' hrun' (by decide)⟩

theorem nexts_overflow : ∃ g a b, newWithClock 7 defaultEpoch
      (some [defaultEpoch + 4000000000000, Int64.minValue]) = .ok g ∧ g.nexts 2 = some [a, b] ∧
    (∀ reading ∈ g.now, reading.toInt - defaultEpoch.toInt < 2 ^ 42) ∧
    b.1 < a.1 ∧ (g.parse b.1).timestamp.toInt ≠ defaultEpoch.toInt + b.2.lastMilli.toInt := by
  refine ⟨_, _, _, rfl, rfl, ?_, by decide +kernel, by decide +kernel⟩
  simp only [List.forall_mem_cons, List.not_mem_nil, false_implies, implies_true, and_true]
  decide +kernel

end GameServer.IdGen
