import Mathlib.Data.Int.Basic
import Mathlib.Order.Bounds.Defs

/-! `date_utils.determine_next_minute_time`: the first full minute that a delay allows. -/
namespace ShimService

/-- The current time in seconds, rounded from milliseconds. -/
def roundedSeconds (now : ℤ) : ℤ := (now + 500) / 1000

/-- `determine_next_minute_time`. The clock is read where no `from_time` is given. -/
def determineNextMinuteTime (secondsInFuture : ℤ) (fromTime : Option ℤ) (flexSeconds : ℤ)
    (systemTime : ℤ) : ℤ :=
  let now := fromTime.getD systemTime
  let nowSeconds := roundedSeconds now
  let left := 60 - nowSeconds % 60
  let secondsInFuture := secondsInFuture - left
  let nowSeconds := nowSeconds + left
  if secondsInFuture ≤ 0 then nowSeconds
  else
    let futureTime := nowSeconds + secondsInFuture
    let diff := futureTime - nowSeconds
    let secondsLeft := diff % 60
    let minutes := diff / 60
    let minutes := if secondsLeft > flexSeconds then minutes + 1 else minutes
    nowSeconds + minutes * 60

variable {s d flex m : ℤ}

/-- The first full minute after a time. -/
def nextMinute (s : ℤ) : ℤ := s + (60 - s % 60)

theorem dvd_nextMinute : 60 ∣ nextMinute s := by
  unfold nextMinute
  omega

theorem lt_nextMinute : s < nextMinute s := by
  unfold nextMinute
  omega

/-- No full minute lies between a time and its next minute. -/
theorem nextMinute_le (hm : 60 ∣ m) (h : s < m) : nextMinute s ≤ m := by
  unfold nextMinute
  omega

/-- The full minutes that are left of a delay, where a rest within the flex does not count. -/
def flexMinutes (diff flexSeconds : ℤ) : ℤ :=
  if diff % 60 > flexSeconds then diff / 60 + 1 else diff / 60

theorem flexMinutes_nonneg (h : 0 ≤ d) : 0 ≤ flexMinutes d flex := by
  unfold flexMinutes
  split <;> omega

theorem le_flexMinutes (h : 0 ≤ flex) : d - flex ≤ flexMinutes d flex * 60 := by
  unfold flexMinutes
  split <;> omega

theorem flexMinutes_zero_le (hm : 60 ∣ m) (h : d ≤ m) : flexMinutes d 0 * 60 ≤ m := by
  unfold flexMinutes
  split <;> omega

/-- The next minute, and from there the full minutes that are left of the delay. -/
theorem determineNextMinuteTime_eq {fromTime : Option ℤ} {systemTime : ℤ}
    (hs : roundedSeconds (fromTime.getD systemTime) = s) :
    determineNextMinuteTime d fromTime flex systemTime =
      if s + d ≤ nextMinute s then nextMinute s
      else nextMinute s + flexMinutes (s + d - nextMinute s) flex * 60 := by
  have hnext : s + (60 - s % 60) = nextMinute s := rfl
  have hle : d - (60 - s % 60) ≤ 0 ↔ s + d ≤ nextMinute s := by omega
  have hdiff : nextMinute s + (d - (60 - s % 60)) - nextMinute s =
      s + d - nextMinute s := by omega
  simp only [determineNextMinuteTime, hs, hnext, hle, hdiff, flexMinutes]

theorem determineNextMinuteTime_allowed {fromTime : Option ℤ} {systemTime : ℤ}
    (hs : roundedSeconds (fromTime.getD systemTime) = s) (hflex : 0 ≤ flex) :
    60 ∣ determineNextMinuteTime d fromTime flex systemTime ∧
    s < determineNextMinuteTime d fromTime flex systemTime ∧
    s + d - flex ≤ determineNextMinuteTime d fromTime flex systemTime := by
  have hdvd := dvd_nextMinute (s := s)
  have hlt := lt_nextMinute (s := s)
  rw [determineNextMinuteTime_eq hs]
  split
  · exact ⟨hdvd, hlt, by omega⟩
  · have hleft : 0 ≤ flexMinutes (s + d - nextMinute s) flex := flexMinutes_nonneg (by omega)
    have hrest : s + d - nextMinute s - flex ≤ flexMinutes (s + d - nextMinute s) flex * 60 :=
      le_flexMinutes hflex
    exact ⟨by omega, by omega, by omega⟩

theorem determineNextMinuteTime_le {fromTime : Option ℤ} {systemTime : ℤ}
    (hs : roundedSeconds (fromTime.getD systemTime) = s) (hm : 60 ∣ m) (hafter : s < m)
    (hdelay : s + d ≤ m) : determineNextMinuteTime d fromTime 0 systemTime ≤ m := by
  have hnext := nextMinute_le hm hafter
  have hdvd := dvd_nextMinute (s := s)
  rw [determineNextMinuteTime_eq hs]
  split
  · exact hnext
  · have hrest : flexMinutes (s + d - nextMinute s) 0 * 60 ≤ m - nextMinute s :=
      flexMinutes_zero_le (by omega) (by omega)
    omega

/-- Without a flex it is the first full minute after the current time that the delay allows; a
flex may bring it forward by no more than the flex. -/
theorem next_minute_time {fromTime : Option ℤ} {systemTime secondsInFuture : ℤ}
    (hs : roundedSeconds (fromTime.getD systemTime) = s) :
    IsLeast {t | 60 ∣ t ∧ s < t ∧ s + secondsInFuture ≤ t}
      (determineNextMinuteTime secondsInFuture fromTime 0 systemTime) ∧
    ∀ flexSeconds, 0 ≤ flexSeconds → flexSeconds ≤ 59 →
      60 ∣ determineNextMinuteTime secondsInFuture fromTime flexSeconds systemTime ∧
      s < determineNextMinuteTime secondsInFuture fromTime flexSeconds systemTime ∧
      s + secondsInFuture - flexSeconds ≤
        determineNextMinuteTime secondsInFuture fromTime flexSeconds systemTime := by
  refine ⟨⟨?_, ?_⟩, fun flexSeconds hflex _ => determineNextMinuteTime_allowed hs hflex⟩
  · have hzero := determineNextMinuteTime_allowed (d := secondsInFuture) hs (Int.le_refl 0)
    exact ⟨hzero.1, hzero.2.1, by omega⟩
  · rintro m ⟨hm, hafter, hdelay⟩
    exact determineNextMinuteTime_le hs hm hafter hdelay

/-- At 46 seconds a delay of 15 leads past the next minute, unless a second less will do. -/
theorem next_minute_time_at_46 :
    IsLeast {t : ℤ | 60 ∣ t ∧ 46 < t ∧ 46 + 15 ≤ t} 120 ∧
    (60 : ℤ) ∣ 60 ∧ (46 : ℤ) < 60 ∧ (46 : ℤ) + 15 - 1 ≤ 60 := by
  have h := @next_minute_time 46 (some 46000) 0 15 rfl
  exact ⟨h.1, h.2 1 (by decide) (by decide)⟩

end ShimService
