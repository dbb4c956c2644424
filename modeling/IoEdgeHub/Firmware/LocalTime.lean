import IoEdgeHub.Firmware.Ftpd
import IoEdgeHub.Proto.TimeMath

/-!
# The three copies of the date algorithm

History file names (`make_hist_name`) and directory listings (`fmt_ls_time`) show the time in UTC+8, each
with a copy of the conversion of `unix_to_civil`: one with clamps on every part, one written into the
function.  They show the parts of `unix_to_civil` eight hours later.
-/

namespace IoEdgeHub

open TimeMath

theorem unixToCivil_local {u : UInt32} (fits : u.toNat + 28800 < 2 ^ 32) :
    (unixToCivil (u + 28800)).month.toNat = (civilFromDays (localDay u)).2.1 ∧
      (unixToCivil (u + 28800)).day.toNat = (civilFromDays (localDay u)).2.2 ∧
      (unixToCivil (u + 28800)).hour.toNat = localSecs u / 3600 ∧
      (unixToCivil (u + 28800)).min.toNat = localSecs u / 60 % 60 ∧
      (unixToCivil (u + 28800)).sec.toNat = localSecs u % 60 := by
  have later : (u + 28800).toNat = u.toNat + 28800 := by
    rw [UInt32.toNat_add]
    exact Nat.mod_eq_of_lt fits
  obtain ⟨month, day⟩ := unixToCivil_civilFromDays (u + 28800)
  obtain ⟨hour, min, sec⟩ := unixToCivil_time (u + 28800)
  rw [later] at month day hour min sec
  refine ⟨month, day, hour, ?_, sec⟩
  rw [min, localSecs]
  omega

/-- The file name that shows a date and time. -/
def nameShowing (c : Civil) : List UInt8 :=
  [0x64, 0x61, 0x74, 0x61, 0x5F] ++ twoDigits c.month.toNat ++ twoDigits c.day.toNat ++ [0x5F] ++
    twoDigits c.hour.toNat ++ twoDigits c.min.toNat ++ twoDigits c.sec.toNat ++ [0x2E, 0x72, 0x61, 0x77]

/-- The listing that shows a date and time. -/
def listingShowing (c : Civil) : List Char :=
  FtpSession.lsTime (c.month.toNat - 1) c.day.toNat c.hour.toNat c.min.toNat

theorem histParts_inside (u : UInt32) {p : ℤ × ℤ × ℤ} (mem : p ∈ histParts u) : p.2.1 ≤ p.1 ∧ p.1 ≤ p.2.2 := by
  have days : ((u.toNat : ℤ) + 8 * 3600) / 86400 = (localDay u : ℤ) := by
    unfold localDay
    omega
  obtain ⟨month, month', day, day'⟩ := civilFromDays_range (localDay u)
  unfold histParts at mem
  dsimp only at mem
  rw [days] at mem
  simp only [List.mem_cons, List.not_mem_nil, or_false] at mem
  rcases mem with rfl | rfl | rfl | rfl | rfl
  · exact ⟨Int.ofNat_le.2 month, Int.ofNat_le.2 month'⟩
  · exact ⟨Int.ofNat_le.2 day, Int.ofNat_le.2 day'⟩
  all_goals
    dsimp only
    omega

theorem makeHistName_local {u : UInt32} (fits : u.toNat + 28800 < 2 ^ 32) :
    makeHistName u = nameShowing (unixToCivil (u + 28800)) := by
  obtain ⟨month, day, hour, min, sec⟩ := unixToCivil_local fits
  rw [makeHistName_eq, nameShowing, month, day, hour, min, sec]
  simp only [List.append_assoc]
  rfl

theorem fmtLsFallback_local {u : UInt32} (fits : u.toNat + 28800 < 2 ^ 32) :
    FtpSession.fmtLsFallback u = listingShowing (unixToCivil (u + 28800)) := by
  obtain ⟨month, day, hour, min, -⟩ := unixToCivil_local fits
  have range := (civilFromDays_range (localDay u)).2.1
  have days : ((u.toNat : ℤ) + 8 * 3600) / 86400 = (localDay u : ℤ) := by
    unfold localDay
    omega
  have secs : (((u.toNat : ℤ) + 8 * 3600) % 86400).toNat = localSecs u := by
    unfold localSecs
    omega
  have computed : FtpSession.fmtLsFallback u = FtpSession.lsTime
      (Nat.min ((civilFromDays (((u.toNat : ℤ) + 8 * 3600) / 86400)).2.1 - 1) 11)
      (civilFromDays (((u.toNat : ℤ) + 8 * 3600) / 86400)).2.2 ((((u.toNat : ℤ) + 8 * 3600) % 86400).toNat / 3600)
      ((((u.toNat : ℤ) + 8 * 3600) % 86400).toNat / 60 % 60) := rfl
  have inside : Nat.min ((civilFromDays (localDay u)).2.1 - 1) 11 = (civilFromDays (localDay u)).2.1 - 1 :=
    Nat.min_eq_left (by omega)
  rw [computed, days, secs, inside, listingShowing, month, day, hour, min]

/-- The name of a history file and a directory listing show the parts of `unix_to_civil` eight hours later, and no
clamp of the name changes a part. -/
theorem date_copies_agree (u : UInt32) (fits : u.toNat + 28800 < 2 ^ 32) :
    makeHistName u = nameShowing (unixToCivil (u + 28800)) ∧
      (∀ p ∈ histParts u, clamp p.1 p.2.1 p.2.2 = p.1) ∧
      ∀ name, FtpSession.nameTime name = none →
        FtpSession.fmtLsTime name u = listingShowing (unixToCivil (u + 28800)) := by
  refine ⟨makeHistName_local fits, fun p mem => ?_, fun name unnamed => ?_⟩
  · obtain ⟨least, most⟩ := histParts_inside u mem
    exact clamp_eq least most
  · rw [FtpSession.fmtLsTime, unnamed, ← fmtLsFallback_local fits]

theorem date_copies_agree_leap_day :
    makeHistName 1709136000 = "data_0229_000000.raw".toUTF8.toList ∧
      FtpSession.fmtLsTime "notes.txt".toList 1709136000 = "Feb 29 00:00".toList := by
  obtain ⟨name, -, listing⟩ := date_copies_agree 1709136000 (by decide)
  refine ⟨name.trans (by decide +kernel), (listing _ (by decide +kernel)).trans (by decide +kernel)⟩

end IoEdgeHub
