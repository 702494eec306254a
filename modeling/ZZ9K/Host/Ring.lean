import ZZ9K.Host.Mailbox

namespace ZZ9K.Host

open ZZ9K.Abi ZZ9K.Framework ZZ9K.Math

theorem nextRingIndex_toNat {i n : UInt32} (hi : i < n) :
    (nextRingIndex i n).toNat = next n.toNat i.toNat := by
  have hn := n.toNat_lt
  have hi' : i.toNat < n.toNat := UInt32.lt_iff_toNat_lt.mp hi
  have hs : (i+1).toNat = i.toNat+1 := by
    rw [UInt32.toNat_add]
    exact Nat.mod_eq_of_lt (by simp; omega)
  unfold nextRingIndex next
  simp only [UInt32.le_iff_toNat_le,hs]
  split_ifs
  · rfl
  · exact hs

theorem advance_eq_nextRingIndex {i n : UInt32} (hi : i < n) :
    (i+1) % n = nextRingIndex i n := by
  apply UInt32.toNat_inj.mp
  have hn := n.toNat_lt
  have hi' : i.toNat < n.toNat := UInt32.lt_iff_toNat_lt.mp hi
  have hs : (i+1).toNat = i.toNat+1 := by
    rw [UInt32.toNat_add]
    exact Nat.mod_eq_of_lt (by simp; omega)
  rw [nextRingIndex_toNat hi,UInt32.toNat_mod,hs]
  unfold next
  split_ifs with h
  · have he : i.toNat+1 = n.toNat := by omega
    rw [he,Nat.mod_self]
  · exact Nat.mod_eq_of_lt (by omega)

namespace Mailbox

/-- All four indices point into their rings. -/
structure Indices (n m : UInt32) (b : Mailbox) : Prop where
  requestHead : getBe32 b.requestHead < n
  requestTail : getBe32 b.requestTail < n
  completionHead : getBe32 b.completionHead < m
  completionTail : getBe32 b.completionTail < m

variable {n m : UInt32} {b : Mailbox}

theorem requests_length : (b.requests n).length =
    ahead n.toNat (getBe32 b.requestHead).toNat (getBe32 b.requestTail).toNat :=
  window_length _

theorem completions_length : (b.completions m).length =
    ahead m.toNat (getBe32 b.completionHead).toNat (getBe32 b.completionTail).toNat :=
  window_length _

theorem requests_nil (hb : b.Indices n m) :
    b.requests n = [] ↔ getBe32 b.requestHead = getBe32 b.requestTail := by
  rw [requests,window_nil _ (UInt32.lt_iff_toNat_lt.mp hb.requestHead),UInt32.toNat_inj]

theorem completions_nil (hb : b.Indices n m) :
    b.completions m = [] ↔ getBe32 b.completionHead = getBe32 b.completionTail := by
  rw [completions,window_nil _ (UInt32.lt_iff_toNat_lt.mp hb.completionHead),UInt32.toNat_inj]

theorem requests_bound (hb : b.Indices n m) : (b.requests n).length ≤ n.toNat-1 := by
  have h := ahead_lt (UInt32.lt_iff_toNat_lt.mp hb.requestHead)
    (UInt32.lt_iff_toNat_lt.mp hb.requestTail)
  rw [requests_length]
  omega

theorem completions_bound (hb : b.Indices n m) : (b.completions m).length ≤ m.toNat-1 := by
  have h := ahead_lt (UInt32.lt_iff_toNat_lt.mp hb.completionHead)
    (UInt32.lt_iff_toNat_lt.mp hb.completionTail)
  rw [completions_length]
  omega

/-- The full test of the source: the request ring holds one entry less than it has slots. -/
theorem requests_full (hb : b.Indices n m) : (b.requests n).length = n.toNat-1 ↔
    nextRingIndex (getBe32 b.requestTail) n = getBe32 b.requestHead := by
  rw [requests_length,ahead_full (UInt32.lt_iff_toNat_lt.mp hb.requestHead)
    (UInt32.lt_iff_toNat_lt.mp hb.requestTail),← nextRingIndex_toNat hb.requestTail,
    UInt32.toNat_inj]

theorem completions_full (hb : b.Indices n m) : (b.completions m).length = m.toNat-1 ↔
    nextRingIndex (getBe32 b.completionTail) m = getBe32 b.completionHead := by
  rw [completions_length,ahead_full (UInt32.lt_iff_toNat_lt.mp hb.completionHead)
    (UInt32.lt_iff_toNat_lt.mp hb.completionTail),← nextRingIndex_toNat hb.completionTail,
    UInt32.toNat_inj]

theorem requests_write (hb : b.Indices n m) (w : MailboxWireEntry) :
    Mailbox.requests n {b with
      requestRing := Function.update b.requestRing (getBe32 b.requestTail).toNat w} =
        b.requests n := by
  have hh := UInt32.lt_iff_toNat_lt.mp hb.requestHead
  simp only [requests]
  rw [← map_window b.requestRing fun e => (entryFromWire e).message,
    ← window_update b.requestRing hh w,map_window]

theorem completions_write (hb : b.Indices n m) (w : MailboxWireEntry) :
    Mailbox.completions m {b with
      completionRing := Function.update b.completionRing (getBe32 b.completionTail).toNat w} =
        b.completions m := by
  have hh := UInt32.lt_iff_toNat_lt.mp hb.completionHead
  simp only [completions]
  rw [← map_window b.completionRing entryFromWire,
    ← window_update b.completionRing hh w,map_window]

theorem requests_publish (hb : b.Indices n m)
    (hf : nextRingIndex (getBe32 b.requestTail) n ≠ getBe32 b.requestHead) :
    Mailbox.requests n {b with requestTail := putBe32 (nextRingIndex (getBe32 b.requestTail) n)} =
      b.requests n++[(entryFromWire (b.requestRing (getBe32 b.requestTail).toNat)).message] := by
  have hn := nextRingIndex_toNat hb.requestTail
  simp only [requests,getBe32_putBe32,hn]
  refine window_push _ (UInt32.lt_iff_toNat_lt.mp hb.requestHead)
    (UInt32.lt_iff_toNat_lt.mp hb.requestTail) ?_
  rw [← hn]
  exact fun h => hf (UInt32.toNat_inj.mp h)

theorem completions_publish (hb : b.Indices n m)
    (hf : nextRingIndex (getBe32 b.completionTail) m ≠ getBe32 b.completionHead) :
    Mailbox.completions m
        {b with completionTail := putBe32 (nextRingIndex (getBe32 b.completionTail) m)} =
      b.completions m++[entryFromWire (b.completionRing (getBe32 b.completionTail).toNat)] := by
  have hn := nextRingIndex_toNat hb.completionTail
  simp only [completions,getBe32_putBe32,hn]
  refine window_push _ (UInt32.lt_iff_toNat_lt.mp hb.completionHead)
    (UInt32.lt_iff_toNat_lt.mp hb.completionTail) ?_
  rw [← hn]
  exact fun h => hf (UInt32.toNat_inj.mp h)

/-- Filling the slot behind the tail and publishing it adds one message. -/
theorem requests_append (hb : b.Indices n m)
    (hf : nextRingIndex (getBe32 b.requestTail) n ≠ getBe32 b.requestHead) (w : MailboxWireEntry) :
    Mailbox.requests n {b with
      requestRing := Function.update b.requestRing (getBe32 b.requestTail).toNat w
      requestTail := putBe32 (nextRingIndex (getBe32 b.requestTail) n)} =
        b.requests n++[(entryFromWire w).message] := by
  have hp := requests_publish (n := n) (m := m) (b := {b with
    requestRing := Function.update b.requestRing (getBe32 b.requestTail).toNat w})
    ⟨hb.1,hb.2,hb.3,hb.4⟩ hf
  rw [requests_write hb w] at hp
  simpa using hp

theorem completions_append (hb : b.Indices n m)
    (hf : nextRingIndex (getBe32 b.completionTail) m ≠ getBe32 b.completionHead)
    (w : MailboxWireEntry) :
    Mailbox.completions m {b with
      completionRing := Function.update b.completionRing (getBe32 b.completionTail).toNat w
      completionTail := putBe32 (nextRingIndex (getBe32 b.completionTail) m)} =
        b.completions m++[entryFromWire w] := by
  have hp := completions_publish (n := n) (m := m) (b := {b with
    completionRing := Function.update b.completionRing (getBe32 b.completionTail).toNat w})
    ⟨hb.1,hb.2,hb.3,hb.4⟩ hf
  rw [completions_write hb w] at hp
  simpa using hp

theorem requests_pop (hb : b.Indices n m)
    (he : getBe32 b.requestHead ≠ getBe32 b.requestTail) :
    b.requests n = (entryFromWire (b.requestRing (getBe32 b.requestHead).toNat)).message ::
      Mailbox.requests n
        {b with requestHead := putBe32 (nextRingIndex (getBe32 b.requestHead) n)} := by
  simp only [requests,getBe32_putBe32,nextRingIndex_toNat hb.requestHead]
  exact window_pop _ (UInt32.lt_iff_toNat_lt.mp hb.requestHead)
    (UInt32.lt_iff_toNat_lt.mp hb.requestTail) (fun h => he (UInt32.toNat_inj.mp h))

theorem completions_pop (hb : b.Indices n m)
    (he : getBe32 b.completionHead ≠ getBe32 b.completionTail) :
    b.completions m = entryFromWire (b.completionRing (getBe32 b.completionHead).toNat) ::
      Mailbox.completions m
        {b with completionHead := putBe32 (nextRingIndex (getBe32 b.completionHead) m)} := by
  simp only [completions,getBe32_putBe32,nextRingIndex_toNat hb.completionHead]
  exact window_pop _ (UInt32.lt_iff_toNat_lt.mp hb.completionHead)
    (UInt32.lt_iff_toNat_lt.mp hb.completionTail) (fun h => he (UInt32.toNat_inj.mp h))

theorem nextRingIndex_lt {i : UInt32} (hi : i < n) : nextRingIndex i n < n := by
  rw [UInt32.lt_iff_toNat_lt,nextRingIndex_toNat hi]
  exact next_lt (by have := UInt32.lt_iff_toNat_lt.mp hi; omega)

end Mailbox

end ZZ9K.Host
