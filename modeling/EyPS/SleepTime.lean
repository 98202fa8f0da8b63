/-
How long the loop of `Background` sleeps: until the time `ikcp_check` gives, which is a
32-bit number, less the value of `clock()`, which is a `long`.

Where `long` has 32 bits the subtraction is unsigned and the wraps of both cancel. Where
it has 64 the clock does not wrap and the deadline does.
-/
import EyPS.Kcp

namespace EyPS

/-! ## ikcp_check -/

/-- `IKCPCB`, what `ikcp_check` reads: the flag `updated`, and of the segments of
`snd_buf` their `resendts`. -/
structure KcpTimers where
  updated : Bool
  tsFlush : UInt32
  interval : UInt32
  resendts : List UInt32
  deriving DecidableEq

/-- Its loop over `snd_buf`: the least time to a resend and `tm_packet`, or none where a
segment is due. -/
def tmPacket (current : UInt32) : Int → List UInt32 → Option Int
  | tm, [] => some tm
  | tm, resendts :: rest =>
    let diff := itimediff resendts current
    if diff ≤ 0 then none else tmPacket current (if diff < tm then diff else tm) rest

/-- `ts_flush`, or now if that is 10 seconds off. -/
def flushTime (kcp : KcpTimers) (current : UInt32) : UInt32 :=
  if 10000 ≤ itimediff current kcp.tsFlush ∨ itimediff current kcp.tsFlush < -10000 then current
  else kcp.tsFlush

/-- `ikcp_check`. -/
def ikcpCheck (kcp : KcpTimers) (current : UInt32) : UInt32 :=
  if !kcp.updated then current
  else if 0 ≤ itimediff current (flushTime kcp current) then current
  else
    match tmPacket current 0x7fffffff kcp.resendts with
    | none => current
    | some tm =>
      let tmFlush := itimediff (flushTime kcp current) current
      let minimal := UInt32.ofInt (if tm < tmFlush then tm else tmFlush)
      current + (if kcp.interval ≤ minimal then kcp.interval else minimal)

/-- The deadline is at most one interval away. -/
theorem ikcpCheck_eq (kcp : KcpTimers) (current : UInt32) :
    ∃ delta ≤ kcp.interval, ikcpCheck kcp current = current + delta := by
  have hnow : ∃ delta ≤ kcp.interval, current = current + delta :=
    ⟨0, UInt32.zero_le, (UInt32.add_zero current).symm⟩
  have hmin : ∀ minimal, (if kcp.interval ≤ minimal then kcp.interval else minimal) ≤ kcp.interval := by
    intro minimal
    split
    · exact UInt32.le_refl _
    next hlt => exact UInt32.le_of_lt (UInt32.not_le.mp hlt)
  unfold ikcpCheck
  split
  · exact hnow
  · split
    · exact hnow
    · cases tmPacket current 0x7fffffff kcp.resendts with
      | none => exact hnow
      | some tm => exact ⟨_, hmin _, rfl⟩

/-! ## The sleep -/

/-- `ts - current` of an unsigned 32-bit number and a `long`, as the milliseconds
`sleep_for` gets. A `long` of 32 bits cannot hold every `unsigned`, so both become
`unsigned long`; one of 64 bits can. -/
def sleepTime (P : Platform) (ts : UInt32) (current : Int) : Int :=
  if P.long = 32 then (ts.toNat - current) % 2 ^ 32 else ts.toNat - current

/-- What `Background` sleeps when `clock()` returns `current`: `ikcp_check` gets it narrowed
to 32 bits. -/
def backgroundSleep (P : Platform) (kcp : KcpTimers) (current : Int) : Int :=
  sleepTime P (ikcpCheck kcp (UInt32.ofInt current)) current

theorem toNat_ofInt (x : Int) : ((UInt32.ofInt x).toNat : Int) = x % 2 ^ 32 := by
  have hpos : 0 ≤ x % 2 ^ 32 := Int.emod_nonneg _ (by decide)
  have hlt : x % 2 ^ 32 < 2 ^ 32 := Int.emod_lt_of_pos _ (by decide)
  rw [UInt32.ofInt, UInt32.toNat_ofNat']
  omega

theorem ofInt_add (x : Int) (delta : UInt32) : UInt32.ofInt x + delta = UInt32.ofInt (x + delta.toNat) := by
  have hx := toNat_ofInt x
  have hsum := toNat_ofInt (x + delta.toNat)
  rw [← UInt32.toNat_inj, UInt32.toNat_add]
  omega

/-- The subtraction, for a deadline less than `2 ^ 32` away. -/
theorem sleepTime_ofInt_iff (P : Platform) {c : Int} {delta : Nat} (hc : 0 ≤ c) (hdelta : delta < 2 ^ 32) :
    sleepTime P (UInt32.ofInt (c + delta)) c = delta ↔ P.long = 32 ∨ c + delta < 2 ^ 32 := by
  rw [sleepTime, toNat_ofInt]
  rcases P.long_eq with h | h
  · rw [if_pos h]
    refine iff_of_true ?_ (.inl h)
    omega
  · rw [if_neg (by omega)]
    omega

/-- **The sleep is the time to the deadline** exactly where `long` has 32 bits or the
deadline has not wrapped. -/
theorem sleepTime_eq_iff (P : Platform) (c : Int) (delta interval : Nat) (ts : UInt32) (hc0 : 0 ≤ c)
    (hdelta : delta ≤ interval) (hinterval : interval < 2 ^ 32)
    (hts : ts = UInt32.ofInt (c + delta)) :
    sleepTime P ts c = delta ↔ P.long = 32 ∨ c + delta < 2 ^ 32 := by
  have hlt : delta < 2 ^ 32 := Nat.lt_of_le_of_lt hdelta hinterval
  rw [hts]
  exact sleepTime_ofInt_iff P hc0 hlt

/-- An interval of 10 after the clock has passed `2 ^ 31`. -/
theorem sleepTime_sample : sleepTime ⟨64, 64, .inr rfl, .inr rfl⟩ 2147483658 2147483648 = 10 :=
  (sleepTime_eq_iff ⟨64, 64, .inr rfl, .inr rfl⟩ 2147483648 10 10 2147483658 (by decide) (by decide) (by decide)
    (by decide)).mpr (.inr (by decide))

/-- At `2 ^ 32` the deadline is 10 and the clock is not. -/
theorem sleepTime_negative :
    let P : Platform := ⟨64, 64, .inr rfl, .inr rfl⟩
    let c : Int := 4294967296
    c < 2 ^ (P.long - 1) ∧ UInt32.ofInt (c + 10) = 10 ∧ sleepTime P 10 c = -4294967286 := by
  decide

/-- The loop itself: with what `ikcp_check` returns, the sleep is within one interval as
long as the two clocks agree. -/
theorem backgroundSleep_le (P : Platform) (kcp : KcpTimers) {c : Int} (hc : 0 ≤ c)
    (h : P.long = 32 ∨ c + kcp.interval.toNat < 2 ^ 32) :
    0 ≤ backgroundSleep P kcp c ∧ backgroundSleep P kcp c ≤ kcp.interval.toNat := by
  obtain ⟨delta, hdelta, hts⟩ := ikcpCheck_eq kcp (UInt32.ofInt c)
  have hle : delta.toNat ≤ kcp.interval.toNat := hdelta
  have hlt := kcp.interval.toNat_lt
  have hsleep : backgroundSleep P kcp c = delta.toNat := by
    rw [backgroundSleep, hts, ofInt_add, sleepTime_ofInt_iff P hc (by omega)]
    omega
  omega

end EyPS
