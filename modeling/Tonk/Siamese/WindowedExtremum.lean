import Tonk.Session.TimeSync
import Tonk.Siamese.RoundTripTime

set_option autoImplicit false

namespace Tonk.Siamese
open Protocol Session Serial

/-- The numbers of the updates that the samples come from. The code does not keep them. -/
structure Created where
  created0 : Nat
  created1 : Nat
  created2 : Nat

namespace WindowedMinMax

section Created

variable {α : Type} [Zero α] [DecidableEq α] (compare : α → α → Bool)

def placeCreated (w : WindowedMinMax α) (sample : Sample α) (n : Nat) (c : Created) : Created :=
  if compare sample.value w.samples1.value then { c with created1 := n, created2 := n }
  else if compare sample.value w.samples2.value then { c with created2 := n }
  else c

def expireCreated (w : WindowedMinMax α) (sample : Sample α) (windowLengthTime n : Nat)
    (c : Created) : Created :=
  if w.samples0.timeoutExpired sample.timestamp windowLengthTime then
    if w.samples1.timeoutExpired sample.timestamp windowLengthTime then ⟨c.created2, n, n⟩
    else ⟨c.created1, c.created2, n⟩
  else if w.samples1.value = w.samples0.value ∧
      w.samples1.timeoutExpired sample.timestamp (windowLengthTime / 4) then
    { c with created1 := n, created2 := n }
  else if w.samples2.value = w.samples1.value ∧
      w.samples2.timeoutExpired sample.timestamp (windowLengthTime / 2) then
    { c with created2 := n }
  else c

def updateCreated (w : WindowedMinMax α) (value : α) (timestamp windowLengthTime n : Nat)
    (c : Created) : Created :=
  let sample : Sample α := ⟨value, timestamp⟩
  if w.isValid = false ∨ compare value w.samples0.value ∨
      w.samples2.timeoutExpired timestamp windowLengthTime then ⟨n, n, n⟩
  else (w.place compare sample).expireCreated sample windowLengthTime n
    (w.placeCreated compare sample n c)

end Created

end WindowedMinMax

structure Report (β : Type) where
  value : β
  timestamp : Nat

/-- The samples and where they come from, and the number of updates so far. -/
structure Tracker (α : Type) where
  window : WindowedMinMax α
  created : Created
  updates : Nat

section Track

variable {α β : Type} [Zero α] [DecidableEq α] (compare : α → α → Bool) (val : β → α)
  (windowLengthTime : Nat)

def Tracker.update (s : Tracker α) (r : Report β) : Tracker α where
  window := s.window.update compare (val r.value) r.timestamp windowLengthTime
  created := s.window.updateCreated compare (val r.value) r.timestamp windowLengthTime s.updates
    s.created
  updates := s.updates + 1

def track (reports : List (Report β)) : Tracker α :=
  reports.foldl (Tracker.update compare val windowLengthTime) ⟨.initial, ⟨0, 0, 0⟩, 0⟩

theorem track_window (reports : List (Report β)) :
    (track compare val windowLengthTime reports).window =
      reports.foldl (fun w r => w.update compare (val r.value) r.timestamp windowLengthTime)
        .initial := by
  induction reports using List.reverseRecOn with
  | nil => rfl
  | append_singleton reports r ih =>
    rw [track, List.foldl_append, List.foldl_append, ← ih]
    rfl

/-- A sample is the report of the update that created it, not older than the window, and no report
since is better. -/
structure Extremum (reports : List (Report β)) (sample : WindowedMinMax.Sample α) (created : Nat) :
    Prop where
  reported : ∃ r, reports[created]? = some r ∧ sample = ⟨val r.value, r.timestamp⟩
  recent : ∀ last ∈ reports.getLast?, last.timestamp ≤ sample.timestamp + windowLengthTime
  extremum : ∀ (i : Nat) (r : Report β), created ≤ i → reports[i]? = some r →
    compare sample.value (val r.value) = true

/-- The samples are extrema, from the best to the worst and from the oldest to the latest. -/
structure WindowedExtremum (reports : List (Report β)) (s : Tracker α) : Prop where
  sample0 : Extremum compare val windowLengthTime reports s.window.samples0 s.created.created0
  sample1 : Extremum compare val windowLengthTime reports s.window.samples1 s.created.created1
  sample2 : Extremum compare val windowLengthTime reports s.window.samples2 s.created.created2
  ordered : compare s.window.samples0.value s.window.samples1.value = true ∧
    compare s.window.samples1.value s.window.samples2.value = true
  timestamps : s.window.samples0.timestamp ≤ s.window.samples1.timestamp ∧
    s.window.samples1.timestamp ≤ s.window.samples2.timestamp
  best : ∀ last ∈ reports.getLast?, compare s.window.getBest (val last.value) = true ∧
    ∃ r ∈ reports, s.window.getBest = val r.value ∧ last.timestamp ≤ r.timestamp + windowLengthTime

end Track

/-- The reports come in the order of their timestamps. -/
structure Timely {β : Type} (reports : List (Report β)) : Prop where
  sorted : reports.Pairwise fun r r' => r.timestamp ≤ r'.timestamp
  lt : ∀ r ∈ reports, r.timestamp < 2 ^ 64

section Since

variable {α β : Type} [Zero α] [DecidableEq α] {compare : α → α → Bool} {val : β → α}
  {rank : β → Int} {reports : List (Report β)} {new : Report β}

/-- The report of one update, which is the least since. -/
structure Since (rank : β → Int) (reports : List (Report β)) (created : Nat) (r : Report β) :
    Prop where
  reported : reports[created]? = some r
  least : ∀ (i : Nat) (r' : Report β), created ≤ i → reports[i]? = some r' →
    rank r.value ≤ rank r'.value

theorem Since.lt_length {created : Nat} {r : Report β} (h : Since rank reports created r) :
    created < reports.length := by
  by_contra hle
  have hnone := List.getElem?_eq_none (Nat.le_of_not_lt hle)
  rw [h.reported] at hnone
  cases hnone

theorem Since.mem {created : Nat} {r : Report β} (h : Since rank reports created r) :
    r ∈ reports := List.mem_of_getElem? h.reported

theorem Since.le {created created' : Nat} {r r' : Report β} (h : Since rank reports created r)
    (h' : Since rank reports created' r') (hle : created ≤ created') :
    rank r.value ≤ rank r'.value := h.least created' r' hle h'.reported

theorem Since.append {created : Nat} {r : Report β} (h : Since rank reports created r)
    (hle : rank r.value ≤ rank new.value) : Since rank (reports ++ [new]) created r := by
  have hlt := h.lt_length
  refine ⟨?_, fun i r' hi hr' => ?_⟩
  · rw [List.getElem?_append_left hlt]
    exact h.reported
  · by_cases hold : i < reports.length
    · rw [List.getElem?_append_left hold] at hr'
      exact h.least i r' hi hr'
    · rw [List.getElem?_append_right (Nat.le_of_not_lt hold)] at hr'
      obtain ⟨-, rfl⟩ := List.getElem?_eq_some_iff.mp hr' |>.imp fun _ h => h
      rw [List.getElem_singleton]
      exact hle

theorem since_append (rank : β → Int) (reports : List (Report β)) (new : Report β) :
    Since rank (reports ++ [new]) reports.length new := by
  refine ⟨by simp, fun i r' hi hr' => ?_⟩
  rw [List.getElem?_append_right hi] at hr'
  obtain ⟨-, rfl⟩ := List.getElem?_eq_some_iff.mp hr' |>.imp fun _ h => h
  rw [List.getElem_singleton]

theorem Since.timestamp_le {created created' : Nat} {r r' : Report β}
    (h : Since rank reports created r) (h' : Since rank reports created' r')
    (hle : created ≤ created')
    (hsorted : reports.Pairwise fun r r' => r.timestamp ≤ r'.timestamp) :
    r.timestamp ≤ r'.timestamp := by
  obtain ⟨hlt, hr⟩ := List.getElem?_eq_some_iff.mp h.reported
  obtain ⟨hlt', hr'⟩ := List.getElem?_eq_some_iff.mp h'.reported
  rcases Nat.lt_or_eq_of_le hle with hless | rfl
  · rw [← hr, ← hr']
    exact List.pairwise_iff_getElem.mp hsorted created created' hlt hlt' hless
  · rw [← hr, ← hr']

/-- Better by the comparison is less by the rank, among the reports. -/
def Agrees (compare : α → α → Bool) (val : β → α) (rank : β → Int) (reports : List (Report β)) :
    Prop :=
  ∀ r ∈ reports, ∀ r' ∈ reports,
    compare (val r.value) (val r'.value) = true ↔ rank r.value ≤ rank r'.value

/-- The samples as reports, and the updates they come from. -/
structure Shows (val : β → α) (rank : β → Int) (reports : List (Report β)) (w : WindowedMinMax α)
    (c : Created) (r0 r1 r2 : Report β) : Prop where
  samples0 : w.samples0 = ⟨val r0.value, r0.timestamp⟩
  samples1 : w.samples1 = ⟨val r1.value, r1.timestamp⟩
  samples2 : w.samples2 = ⟨val r2.value, r2.timestamp⟩
  since0 : Since rank reports c.created0 r0
  since1 : Since rank reports c.created1 r1
  since2 : Since rank reports c.created2 r2
  le01 : c.created0 ≤ c.created1
  le12 : c.created1 ≤ c.created2

omit [Zero α] [DecidableEq α] in
theorem shows_reset (val : β → α) (rank : β → Int) (reports : List (Report β)) (new : Report β) :
    Shows val rank (reports ++ [new]) (.reset ⟨val new.value, new.timestamp⟩)
      ⟨reports.length, reports.length, reports.length⟩ new new new :=
  have hnew := since_append rank reports new
  ⟨rfl, rfl, rfl, hnew, hnew, hnew, Nat.le_refl _, Nat.le_refl _⟩

section Step

variable {w : WindowedMinMax α} {c : Created} {r0 r1 r2 : Report β}

omit [Zero α] [DecidableEq α] in
theorem Shows.place (h : Shows val rank reports w c r0 r1 r2)
    (hagrees : Agrees compare val rank (reports ++ [new]))
    (hworse : rank r0.value ≤ rank new.value) :
    ∃ r1' r2', Shows val rank (reports ++ [new])
        (w.place compare ⟨val new.value, new.timestamp⟩)
        (w.placeCreated compare ⟨val new.value, new.timestamp⟩ reports.length c) r0 r1' r2' ∧
      (r1' = r1 ∨ r1' = new) ∧ (r2' = r2 ∨ r2' = new) := by
  have hnew := since_append rank reports new
  have hmem : new ∈ reports ++ [new] := List.mem_append_right _ (List.mem_singleton.mpr rfl)
  have hcompare : ∀ {created : Nat} {r : Report β}, Since rank reports created r →
      (compare (val new.value) (val r.value) = true ↔ rank new.value ≤ rank r.value) :=
    fun hr => hagrees new hmem _ (List.mem_append_left _ hr.mem)
  have h0 := h.since0.append hworse
  unfold WindowedMinMax.place WindowedMinMax.placeCreated
  simp only [h.samples1, h.samples2]
  by_cases hsecond : compare (val new.value) (val r1.value) = true
  · simp only [if_pos hsecond]
    exact ⟨new, new, ⟨h.samples0, rfl, rfl, h0, hnew, hnew, h.since0.lt_length.le, Nat.le_refl _⟩,
      .inr rfl, .inr rfl⟩
  · have h1 : Since rank (reports ++ [new]) c.created1 r1 := h.since1.append
      (not_le.mp fun hle => hsecond ((hcompare h.since1).mpr hle)).le
    simp only [if_neg hsecond]
    by_cases hthird : compare (val new.value) (val r2.value) = true
    · simp only [if_pos hthird]
      exact ⟨r1, new, ⟨h.samples0, rfl, rfl, h0, h1, hnew, h.le01, h.since1.lt_length.le⟩,
        .inl rfl, .inr rfl⟩
    · have h2 : Since rank (reports ++ [new]) c.created2 r2 := h.since2.append
        (not_le.mp fun hle => hthird ((hcompare h.since2).mpr hle)).le
      simp only [if_neg hthird]
      exact ⟨r1, r2, ⟨h.samples0, h.samples1, h.samples2, h0, h1, h2, h.le01, h.le12⟩, .inl rfl,
        .inl rfl⟩

omit [Zero α] [DecidableEq α] in
theorem timeoutExpired_iff {value : α} {timestamp now : Nat} (timeout : Nat) (hle : timestamp ≤ now)
    (hlt : now < 2 ^ 64) :
    (WindowedMinMax.Sample.mk value timestamp).timeoutExpired now timeout = true ↔
      timestamp + timeout < now := by
  have hcast := sub_cast 64 now timestamp
  rw [Int.emod_eq_of_lt (by omega) (by omega)] at hcast
  rw [WindowedMinMax.Sample.timeoutExpired, decide_eq_true_iff]
  change timeout < sub 64 now timestamp ↔ _
  omega

omit [Zero α] in
theorem Shows.expire (h : Shows val rank (reports ++ [new]) w c r0 r1 r2)
    (htimely : Timely (reports ++ [new])) {windowLengthTime : Nat}
    (hfresh : new.timestamp ≤ r2.timestamp + windowLengthTime) :
    ∃ r0' r1' r2', Shows val rank (reports ++ [new])
        (w.expire ⟨val new.value, new.timestamp⟩ windowLengthTime)
        (w.expireCreated ⟨val new.value, new.timestamp⟩ windowLengthTime reports.length c)
        r0' r1' r2' ∧
      new.timestamp ≤ r0'.timestamp + windowLengthTime := by
  have hnew := since_append rank reports new
  have hlength : ∀ {created : Nat} {r : Report β}, Since rank (reports ++ [new]) created r →
      created ≤ reports.length ∧ r.timestamp ≤ new.timestamp := by
    intro created r hr
    have hlt := hr.lt_length
    rw [List.length_append, List.length_singleton] at hlt
    exact ⟨Nat.le_of_lt_succ hlt, hr.timestamp_le hnew (Nat.le_of_lt_succ hlt) htimely.sorted⟩
  have hnow : new.timestamp < 2 ^ 64 := htimely.lt new hnew.mem
  have hexpired : ∀ {created : Nat} {r : Report β} (timeout : Nat),
      Since rank (reports ++ [new]) created r →
      ((WindowedMinMax.Sample.mk (val r.value) r.timestamp).timeoutExpired new.timestamp timeout =
        true ↔ r.timestamp + timeout < new.timestamp) :=
    fun timeout hr => timeoutExpired_iff timeout (hlength hr).2 hnow
  unfold WindowedMinMax.expire WindowedMinMax.expireCreated
  simp only [h.samples0, h.samples1, h.samples2, hexpired _ h.since0, hexpired _ h.since1,
    hexpired _ h.since2]
  by_cases hbest : r0.timestamp + windowLengthTime < new.timestamp
  · simp only [if_pos hbest]
    by_cases hnext : r1.timestamp + windowLengthTime < new.timestamp
    · simp only [if_pos hnext]
      exact ⟨r2, new, new, ⟨rfl, rfl, rfl, h.since2, hnew, hnew, (hlength h.since2).1,
        Nat.le_refl _⟩, hfresh⟩
    · simp only [if_neg hnext]
      exact ⟨r1, r2, new, ⟨rfl, rfl, rfl, h.since1, h.since2, hnew, h.le12, (hlength h.since2).1⟩,
        Nat.le_of_not_lt hnext⟩
  · have hkept := Nat.le_of_not_lt hbest
    simp only [if_neg hbest]
    split
    · exact ⟨r0, new, new, ⟨rfl, rfl, rfl, h.since0, hnew, hnew, (hlength h.since0).1,
        Nat.le_refl _⟩, hkept⟩
    · split
      · exact ⟨r0, r1, new, ⟨rfl, rfl, rfl, h.since0, h.since1, hnew, h.le01,
          (hlength h.since1).1⟩, hkept⟩
      · exact ⟨r0, r1, r2, h, hkept⟩

end Step

theorem track_updates (compare : α → α → Bool) (val : β → α) (windowLengthTime : Nat)
    (reports : List (Report β)) :
    (track compare val windowLengthTime reports).updates = reports.length := by
  induction reports using List.reverseRecOn with
  | nil => rfl
  | append_singleton reports r ih =>
    rw [track, List.foldl_append, List.length_append, List.length_singleton, ← ih]
    rfl

theorem Shows.update {w : WindowedMinMax α} {c : Created} {r0 r1 r2 : Report β}
    (h : Shows val rank reports w c r0 r1 r2) (windowLengthTime : Nat)
    (hagrees : Agrees compare val rank (reports ++ [new])) (htimely : Timely (reports ++ [new])) :
    ∃ r0' r1' r2', Shows val rank (reports ++ [new])
        (w.update compare (val new.value) new.timestamp windowLengthTime)
        (w.updateCreated compare (val new.value) new.timestamp windowLengthTime reports.length c)
        r0' r1' r2' ∧
      new.timestamp ≤ r0'.timestamp + windowLengthTime := by
  have hmem : new ∈ reports ++ [new] := List.mem_append_right _ (List.mem_singleton.mpr rfl)
  unfold WindowedMinMax.update WindowedMinMax.updateCreated
  by_cases hreset : w.isValid = false ∨ compare (val new.value) w.samples0.value = true ∨
      w.samples2.timeoutExpired new.timestamp windowLengthTime = true
  · simp only [if_pos hreset]
    exact ⟨new, new, new, shows_reset val rank reports new, Nat.le_add_right _ _⟩
  · simp only [if_neg hreset]
    have hworse : rank r0.value ≤ rank new.value := by
      refine (not_le.mp fun hle => hreset (.inr (.inl ?_))).le
      rw [h.samples0]
      exact (hagrees new hmem r0 (List.mem_append_left _ h.since0.mem)).mpr hle
    have htime : r2.timestamp ≤ new.timestamp :=
      (List.pairwise_append.mp htimely.sorted).2.2 r2 h.since2.mem new (List.mem_singleton.mpr rfl)
    have hfresh : new.timestamp ≤ r2.timestamp + windowLengthTime := by
      refine Nat.le_of_not_lt fun hlt => hreset (.inr (.inr ?_))
      rw [h.samples2, timeoutExpired_iff windowLengthTime htime (htimely.lt new hmem)]
      exact hlt
    obtain ⟨r1', r2', hplace, -, hlast⟩ := h.place hagrees hworse
    refine hplace.expire htimely ?_
    rcases hlast with rfl | rfl
    · exact hfresh
    · exact Nat.le_add_right _ _

omit [Zero α] [DecidableEq α] in
theorem Agrees.of_append {more : List (Report β)} (h : Agrees compare val rank (reports ++ more)) :
    Agrees compare val rank reports :=
  fun r hr r' hr' => h r (List.mem_append_left _ hr) r' (List.mem_append_left _ hr')

theorem Timely.of_append {more : List (Report β)} (h : Timely (reports ++ more)) :
    Timely reports :=
  ⟨(List.pairwise_append.mp h.sorted).1, fun r hr => h.lt r (List.mem_append_left _ hr)⟩

theorem track_shows {windowLengthTime : Nat} (hagrees : Agrees compare val rank (reports ++ [new]))
    (htimely : Timely (reports ++ [new])) :
    ∃ r0 r1 r2, Shows val rank (reports ++ [new])
        (track compare val windowLengthTime (reports ++ [new])).window
        (track compare val windowLengthTime (reports ++ [new])).created r0 r1 r2 ∧
      new.timestamp ≤ r0.timestamp + windowLengthTime := by
  induction reports using List.reverseRecOn generalizing new with
  | nil =>
    refine ⟨new, new, new, ?_, Nat.le_add_right _ _⟩
    have hinvalid : (WindowedMinMax.initial : WindowedMinMax α).isValid = false := by
      simp [WindowedMinMax.isValid, WindowedMinMax.initial]
    have hreset := shows_reset val rank [] new
    simp only [track, List.nil_append, List.foldl_cons, List.foldl_nil, Tracker.update,
      WindowedMinMax.update, WindowedMinMax.updateCreated, hinvalid, true_or, if_true]
    exact hreset
  | append_singleton reports last ih =>
    obtain ⟨r0, r1, r2, hshows, -⟩ := ih hagrees.of_append htimely.of_append
    have hcount := track_updates compare val windowLengthTime (reports ++ [last])
    have htrack : track compare val windowLengthTime ((reports ++ [last]) ++ [new]) =
        (track compare val windowLengthTime (reports ++ [last])).update compare val windowLengthTime
          new := by
      rw [track, List.foldl_append]
      rfl
    rw [htrack]
    simp only [Tracker.update, hcount]
    exact hshows.update windowLengthTime hagrees htimely

/-- The samples that are still inside the window; none, if there has been no valid one. -/
def WindowedMinMax.survivors (w : WindowedMinMax α) (now windowLengthTime : Nat) :
    List (WindowedMinMax.Sample α) :=
  if w.isValid then
    [w.samples0, w.samples1, w.samples2].filter fun x => !x.timeoutExpired now windowLengthTime
  else []

omit [Zero α] [DecidableEq α] in
theorem WindowedMinMax.place_samples0 (compare : α → α → Bool) (w : WindowedMinMax α)
    (sample : Sample α) : (w.place compare sample).samples0 = w.samples0 := by
  unfold place
  split
  · rfl
  · split <;> rfl

omit [Zero α] in
theorem WindowedMinMax.getBest_expire (w : WindowedMinMax α) (sample : Sample α)
    (windowLengthTime : Nat) :
    (w.expire sample windowLengthTime).getBest =
      if w.samples0.timeoutExpired sample.timestamp windowLengthTime then
        if w.samples1.timeoutExpired sample.timestamp windowLengthTime then w.samples2.value
        else w.samples1.value
      else w.samples0.value := by
  simp only [expire, apply_ite getBest]
  simp only [getBest, ite_self]

/-- The best sample behind an update is the best of the new one and those still inside the window. -/
theorem Shows.best_update {w : WindowedMinMax α} {c : Created} {r0 r1 r2 : Report β}
    (h : Shows val rank reports w c r0 r1 r2) (windowLengthTime : Nat)
    (hagrees : Agrees compare val rank (reports ++ [new])) (htimely : Timely (reports ++ [new])) :
    ∃ b ∈ reports ++ [new],
      (w.update compare (val new.value) new.timestamp windowLengthTime).getBest = val b.value ∧
      (b = new ∨ ⟨val b.value, b.timestamp⟩ ∈
        w.survivors new.timestamp windowLengthTime) ∧
      rank b.value ≤ rank new.value ∧
      ∀ x ∈ w.survivors new.timestamp windowLengthTime, ∃ r ∈ reports,
        x = ⟨val r.value, r.timestamp⟩ ∧ rank b.value ≤ rank r.value := by
  have hmem : new ∈ reports ++ [new] := List.mem_append_right _ (List.mem_singleton.mpr rfl)
  have hold : ∀ {r : Report β}, r ∈ reports → r ∈ reports ++ [new] := List.mem_append_left _
  have h01 := h.since0.le h.since1 h.le01
  have h12 := h.since1.le h.since2 h.le12
  have hsorted := htimely.of_append.sorted
  have ht01 := h.since0.timestamp_le h.since1 h.le01 hsorted
  have ht12 := h.since1.timestamp_le h.since2 h.le12 hsorted
  have hnow : ∀ r ∈ reports, r.timestamp ≤ new.timestamp := fun r hr =>
    (List.pairwise_append.mp htimely.sorted).2.2 r hr new (List.mem_singleton.mpr rfl)
  have hexpired : ∀ r ∈ reports,
      ((WindowedMinMax.Sample.mk (val r.value) r.timestamp).timeoutExpired new.timestamp
        windowLengthTime = true ↔ r.timestamp + windowLengthTime < new.timestamp) :=
    fun r hr => timeoutExpired_iff windowLengthTime (hnow r hr) (htimely.lt new hmem)
  have hworse : ∀ r ∈ reports, ¬ compare (val new.value) (val r.value) = true →
      rank r.value ≤ rank new.value :=
    fun r hr hno => (not_le.mp fun hle => hno ((hagrees new hmem r (hold hr)).mpr hle)).le
  have hbetter : ∀ r ∈ reports, compare (val new.value) (val r.value) = true →
      rank new.value ≤ rank r.value :=
    fun r hr hyes => (hagrees new hmem r (hold hr)).mp hyes
  have hmem0 := h.since0.mem
  have hmem1 := h.since1.mem
  have hmem2 := h.since2.mem
  unfold WindowedMinMax.survivors WindowedMinMax.update
  cases hvalid : w.isValid with
  | false =>
    exact ⟨new, hmem, by simp [WindowedMinMax.reset, WindowedMinMax.getBest], .inl rfl,
      Int.le_refl _, by simp⟩
  | true =>
    simp only [Bool.true_eq_false, false_or, if_true, h.samples0, h.samples1, h.samples2,
      hexpired r2 hmem2]
    -- the samples left are among those of `r0`, `r1` and `r2`
    have hleft : ∀ (b : Report β), (∀ r : Report β,
          (r = r0 ∨ r = r1 ∨ r = r2) → ¬ r.timestamp + windowLengthTime < new.timestamp →
          rank b.value ≤ rank r.value) →
        ∀ x ∈ [(⟨val r0.value, r0.timestamp⟩ : WindowedMinMax.Sample α),
            ⟨val r1.value, r1.timestamp⟩, ⟨val r2.value, r2.timestamp⟩].filter
            (fun x => !x.timeoutExpired new.timestamp windowLengthTime),
          ∃ r ∈ reports, x = ⟨val r.value, r.timestamp⟩ ∧ rank b.value ≤ rank r.value := by
      intro b hb x hx
      obtain ⟨hx, hfresh⟩ := List.mem_filter.mp hx
      rw [Bool.not_eq_true', Bool.eq_false_iff] at hfresh
      simp only [List.mem_cons, List.not_mem_nil, or_false] at hx
      rcases hx with rfl | rfl | rfl
      · exact ⟨r0, hmem0, rfl, hb r0 (.inl rfl) fun hlt => hfresh ((hexpired r0 hmem0).mpr hlt)⟩
      · exact ⟨r1, hmem1, rfl, hb r1 (.inr (.inl rfl)) fun hlt =>
          hfresh ((hexpired r1 hmem1).mpr hlt)⟩
      · exact ⟨r2, hmem2, rfl, hb r2 (.inr (.inr rfl)) fun hlt =>
          hfresh ((hexpired r2 hmem2).mpr hlt)⟩
    have hkept : ∀ r : Report β, r ∈ reports → (r = r0 ∨ r = r1 ∨ r = r2) →
        ¬ r.timestamp + windowLengthTime < new.timestamp →
        (⟨val r.value, r.timestamp⟩ : WindowedMinMax.Sample α) ∈
          [(⟨val r0.value, r0.timestamp⟩ : WindowedMinMax.Sample α),
            ⟨val r1.value, r1.timestamp⟩, ⟨val r2.value, r2.timestamp⟩].filter
            (fun x => !x.timeoutExpired new.timestamp windowLengthTime) := by
      intro r hr heq hfresh
      refine List.mem_filter.mpr ⟨?_, ?_⟩
      · rcases heq with rfl | rfl | rfl <;> simp
      · rw [Bool.not_eq_true', Bool.eq_false_iff]
        exact fun hgone => hfresh ((hexpired r hr).mp hgone)
    have hlatest : (WindowedMinMax.Sample.mk (val new.value) new.timestamp).timeoutExpired
        new.timestamp windowLengthTime = false := by
      rw [Bool.eq_false_iff, ne_eq, timeoutExpired_iff windowLengthTime (Nat.le_refl _)
        (htimely.lt new hmem)]
      omega
    by_cases hreset : compare (val new.value) (val r0.value) = true ∨
        r2.timestamp + windowLengthTime < new.timestamp
    · rw [if_pos hreset]
      refine ⟨new, hmem, rfl, .inl rfl, Int.le_refl _, hleft new fun r hr hfresh => ?_⟩
      rcases hreset with hbest | hgone
      · have hle := hbetter r0 hmem0 hbest
        rcases hr with rfl | rfl | rfl <;> omega
      · rcases hr with rfl | rfl | rfl <;> omega
    · obtain ⟨hbest, hfresh2⟩ := not_or.mp hreset
      have h0 := hworse r0 hmem0 hbest
      rw [if_neg hreset, WindowedMinMax.getBest_expire, WindowedMinMax.place_samples0, h.samples0]
      simp only [hexpired r0 hmem0]
      by_cases hfresh0 : r0.timestamp + windowLengthTime < new.timestamp
      · rw [if_pos hfresh0]
        unfold WindowedMinMax.place
        simp only [h.samples1, h.samples2]
        by_cases hsecond : compare (val new.value) (val r1.value) = true
        · simp only [if_pos hsecond, hlatest, Bool.false_eq_true, if_false]
          have hle := hbetter r1 hmem1 hsecond
          refine ⟨new, hmem, rfl, .inl rfl, Int.le_refl _, hleft new fun r hr hfresh => ?_⟩
          rcases hr with rfl | rfl | rfl <;> omega
        · have h1 := hworse r1 hmem1 hsecond
          simp only [if_neg hsecond]
          by_cases hthird : compare (val new.value) (val r2.value) = true
          · have hle := hbetter r2 hmem2 hthird
            simp only [if_pos hthird, hexpired r1 hmem1]
            by_cases hfresh1 : r1.timestamp + windowLengthTime < new.timestamp
            · rw [if_pos hfresh1]
              refine ⟨new, hmem, rfl, .inl rfl, Int.le_refl _, hleft new fun r hr hfresh => ?_⟩
              rcases hr with rfl | rfl | rfl <;> omega
            · rw [if_neg hfresh1]
              refine ⟨r1, hold hmem1, rfl, .inr (hkept r1 hmem1 (.inr (.inl rfl)) hfresh1), h1,
                hleft r1 fun r hr hfresh => ?_⟩
              rcases hr with rfl | rfl | rfl <;> omega
          · have h2 := hworse r2 hmem2 hthird
            simp only [if_neg hthird, h.samples1, h.samples2, hexpired r1 hmem1]
            by_cases hfresh1 : r1.timestamp + windowLengthTime < new.timestamp
            · rw [if_pos hfresh1]
              refine ⟨r2, hold hmem2, rfl, .inr (hkept r2 hmem2 (.inr (.inr rfl)) hfresh2), h2,
                hleft r2 fun r hr hfresh => ?_⟩
              rcases hr with rfl | rfl | rfl <;> omega
            · rw [if_neg hfresh1]
              refine ⟨r1, hold hmem1, rfl, .inr (hkept r1 hmem1 (.inr (.inl rfl)) hfresh1), h1,
                hleft r1 fun r hr hfresh => ?_⟩
              rcases hr with rfl | rfl | rfl <;> omega
      · rw [if_neg hfresh0]
        refine ⟨r0, hold hmem0, rfl, .inr (hkept r0 hmem0 (.inl rfl) hfresh0), h0,
          hleft r0 fun r hr hfresh => ?_⟩
        rcases hr with rfl | rfl | rfl <;> omega

omit [Zero α] [DecidableEq α] in
theorem Shows.extremum {windowLengthTime : Nat} {s : Tracker α} {r0 r1 r2 : Report β}
    (h : Shows val rank (reports ++ [new]) s.window s.created r0 r1 r2)
    (hrecent : new.timestamp ≤ r0.timestamp + windowLengthTime)
    (hagrees : Agrees compare val rank (reports ++ [new])) (htimely : Timely (reports ++ [new])) :
    WindowedExtremum compare val windowLengthTime (reports ++ [new]) s := by
  have hlast : ∀ last ∈ (reports ++ [new]).getLast?, last = new := by
    intro last hlast
    rw [List.getLast?_append_of_ne_nil _ (List.cons_ne_nil _ _)] at hlast
    exact (Option.some.inj hlast).symm
  have hmem : new ∈ reports ++ [new] := List.mem_append_right _ (List.mem_singleton.mpr rfl)
  have htime01 := h.since0.timestamp_le h.since1 h.le01 htimely.sorted
  have htime12 := h.since1.timestamp_le h.since2 h.le12 htimely.sorted
  have hsample : ∀ {sample : WindowedMinMax.Sample α} {created : Nat} {r : Report β},
      sample = ⟨val r.value, r.timestamp⟩ → Since rank (reports ++ [new]) created r →
      r0.timestamp ≤ r.timestamp →
      Extremum compare val windowLengthTime (reports ++ [new]) sample created := by
    rintro sample created r rfl hsince htime
    refine ⟨⟨r, hsince.reported, rfl⟩, fun last hl => ?_, fun i r' hi hr' => ?_⟩
    · rw [hlast last hl]
      exact hrecent.trans (Nat.add_le_add_right htime _)
    · exact (hagrees r hsince.mem r' (List.mem_of_getElem? hr')).mpr (hsince.least i r' hi hr')
  refine ⟨hsample h.samples0 h.since0 (Nat.le_refl _), hsample h.samples1 h.since1 htime01,
    hsample h.samples2 h.since2 (htime01.trans htime12), ?_, ?_, fun last hl => ?_⟩
  · rw [h.samples0, h.samples1, h.samples2]
    exact ⟨(hagrees r0 h.since0.mem r1 h.since1.mem).mpr (h.since0.le h.since1 h.le01),
      (hagrees r1 h.since1.mem r2 h.since2.mem).mpr (h.since1.le h.since2 h.le12)⟩
  · rw [h.samples0, h.samples1, h.samples2]
    exact ⟨htime01, htime12⟩
  · rw [hlast last hl, WindowedMinMax.getBest, h.samples0]
    have hnew := since_append rank reports new
    have hle : s.created.created0 ≤ reports.length := by
      have hlt := h.since0.lt_length
      rw [List.length_append, List.length_singleton] at hlt
      exact Nat.le_of_lt_succ hlt
    exact ⟨(hagrees r0 h.since0.mem new hmem).mpr (h.since0.le hnew hle), r0, h.since0.mem, rfl,
      hrecent⟩

end Since

instance {w k : Nat} : Zero (Counter w k) := ⟨.ofInt 0⟩

def ofWindowedMinTS24 (w : WindowedMinTS24) : WindowedMinMax Counter24 where
  samples0 := ⟨w.samples0.value, w.samples0.timestamp⟩
  samples1 := ⟨w.samples1.value, w.samples1.timestamp⟩
  samples2 := ⟨w.samples2.value, w.samples2.timestamp⟩

theorem ofWindowedMinTS24_update (w : WindowedMinTS24) (value : Counter24)
    (timestamp windowLengthTime : Nat) :
    ofWindowedMinTS24 (w.update value timestamp windowLengthTime) =
      (ofWindowedMinTS24 w).update counterLe value timestamp windowLengthTime := by
  have hplace : ∀ sample : Sample, ofWindowedMinTS24 (w.place sample) =
      (ofWindowedMinTS24 w).place counterLe ⟨sample.value, sample.timestamp⟩ := by
    intro sample
    simp only [WindowedMinTS24.place, apply_ite ofWindowedMinTS24]
    rfl
  have hexpire : ∀ (w : WindowedMinTS24) (sample : Sample),
      ofWindowedMinTS24 (w.expire sample windowLengthTime) =
        (ofWindowedMinTS24 w).expire ⟨sample.value, sample.timestamp⟩ windowLengthTime := by
    intro w sample
    simp only [WindowedMinTS24.expire, apply_ite ofWindowedMinTS24]
    rfl
  simp only [WindowedMinTS24.update, apply_ite ofWindowedMinTS24, hexpire, hplace]
  rfl

theorem counterLe_iff {w k : Nat} (hk : 0 < k) (hkw : k ≤ w) {x y : Int}
    (h : |x - y| < 2 ^ (k - 1)) :
    counterLe (.ofInt x : Counter w k) (.ofInt y) = true ↔ x ≤ y := by
  have hsub : ((Counter.ofInt y : Counter w k).sub (.ofInt x)).value = wrap k (y - x) :=
    Counter.sub_ofInt_value hkw (Counter.ofInt_value hkw y) x
  have hvalue := wrap_cast k (y - x)
  have hpow := Counter.two_pow_pred hk
  have hcast : ((2 ^ (k - 1) : Nat) : Int) = 2 ^ (k - 1) := by
    push_cast
    rfl
  rw [counterLe, hsub, decide_eq_true_iff, Counter.kMSB]
  rw [abs_lt] at h
  rw [hpow] at hvalue
  generalize wrap k (y - x) = gap at hvalue ⊢
  generalize (2 : Nat) ^ (k - 1) = half at hcast ⊢
  generalize (2 : Int) ^ (k - 1) = halfInt at h hvalue hcast
  subst hcast
  by_cases hle : x ≤ y
  · rw [Int.emod_eq_of_lt (by omega) (by omega)] at hvalue
    exact iff_of_true (by omega) hle
  · rw [← Int.add_emod_right, Int.emod_eq_of_lt (by omega) (by omega)] at hvalue
    exact iff_of_false (by omega) hle

def WithinHalfRange (k : Nat) (reports : List (Report Int)) : Prop :=
  ∀ r ∈ reports, ∀ r' ∈ reports, |r.value - r'.value| < 2 ^ (k - 1)

theorem windowedExtremum_of_agrees {α β : Type} [Zero α] [DecidableEq α] {compare : α → α → Bool}
    {val : β → α} {rank : β → Int} {reports : List (Report β)} (windowLengthTime : Nat)
    (hagrees : Agrees compare val rank reports) (htimely : Timely reports) (hne : reports ≠ []) :
    WindowedExtremum compare val windowLengthTime reports
      (track compare val windowLengthTime reports) := by
  obtain ⟨older, new, rfl⟩ : ∃ older new, reports = older ++ [new] :=
    ⟨reports.dropLast, reports.getLast hne, (List.dropLast_append_getLast hne).symm⟩
  obtain ⟨r0, r1, r2, hshows, hrecent⟩ := track_shows hagrees htimely
  exact hshows.extremum hrecent hagrees htimely

/-- After each update the samples are extrema: of a maximum over unsigned values, of a minimum over
counters within half their range of each other, and of a WindowedMinTS24. -/
theorem windowed_extremum (windowLengthTime : Nat) :
    (∀ reports : List (Report Nat), Timely reports → reports ≠ [] →
      WindowedExtremum windowedMaxCompare id windowLengthTime reports
        (track windowedMaxCompare id windowLengthTime reports)) ∧
    (∀ (w k : Nat) (reports : List (Report Int)), 0 < k → k ≤ w → Timely reports → reports ≠ [] →
      WithinHalfRange k reports →
      WindowedExtremum counterLe (Counter.ofInt : Int → Counter w k) windowLengthTime reports
        (track counterLe (Counter.ofInt : Int → Counter w k) windowLengthTime reports)) ∧
    (∀ reports : List (Report Int), Timely reports → reports ≠ [] → WithinHalfRange 24 reports →
      ∃ s : Tracker Counter24,
        s.window = ofWindowedMinTS24 (reports.foldl (fun w r =>
          w.update (.ofInt r.value) r.timestamp windowLengthTime) .initial) ∧
        WindowedExtremum counterLe (Counter.ofInt : Int → Counter24) windowLengthTime reports s) := by
  have hcounters : ∀ (w k : Nat) (reports : List (Report Int)), 0 < k → k ≤ w →
      WithinHalfRange k reports →
      Agrees counterLe (Counter.ofInt : Int → Counter w k) id reports := by
    intro w k reports hk hkw hhalf r hr r' hr'
    exact counterLe_iff hk hkw (hhalf r hr r' hr')
  refine ⟨fun reports htimely hne => ?_, fun w k reports hk hkw htimely hne hhalf => ?_,
    fun reports htimely hne hhalf => ?_⟩
  · have hagrees : Agrees windowedMaxCompare id (fun v : Nat => -(v : Int)) reports := by
      intro r _ r' _
      rw [windowedMaxCompare, decide_eq_true_iff]
      simp only [id]
      omega
    exact windowedExtremum_of_agrees windowLengthTime hagrees htimely hne
  · exact windowedExtremum_of_agrees windowLengthTime (hcounters w k reports hk hkw hhalf) htimely hne
  · refine ⟨track counterLe Counter.ofInt windowLengthTime reports, ?_,
      windowedExtremum_of_agrees windowLengthTime
        (hcounters 32 24 reports (by decide) (by decide) hhalf) htimely hne⟩
    rw [track_window]
    clear htimely hne hhalf
    induction reports using List.reverseRecOn with
    | nil => rfl
    | append_singleton reports r ih =>
      rw [List.foldl_append, List.foldl_append, List.foldl_cons, List.foldl_cons, List.foldl_nil,
        List.foldl_nil, ofWindowedMinTS24_update, ih]

/-- Two reports within a window of 10, the second worse. -/
theorem windowed_extremum_two :
    WindowedExtremum windowedMaxCompare id 10 [⟨5, 1⟩, ⟨3, 4⟩]
      (track windowedMaxCompare id 10 [⟨5, 1⟩, ⟨3, 4⟩]) ∧
    WindowedExtremum counterLe (Counter.ofInt : Int → Counter 32 32) 10 [⟨-1, 1⟩, ⟨3, 4⟩]
      (track counterLe (Counter.ofInt : Int → Counter 32 32) 10 [⟨-1, 1⟩, ⟨3, 4⟩]) ∧
    ∃ s : Tracker Counter24,
      s.window = ofWindowedMinTS24 ([⟨-1, 1⟩, ⟨3, 4⟩].foldl (fun w (r : Report Int) =>
        w.update (.ofInt r.value) r.timestamp 10) .initial) ∧
      WindowedExtremum counterLe (Counter.ofInt : Int → Counter24) 10 [⟨-1, 1⟩, ⟨3, 4⟩] s :=
  ⟨(windowed_extremum 10).1 [⟨5, 1⟩, ⟨3, 4⟩] ⟨by simp, by simp⟩ (by simp),
    (windowed_extremum 10).2.1 32 32 [⟨-1, 1⟩, ⟨3, 4⟩] (by decide) (by decide) ⟨by simp, by simp⟩
      (by simp) (by simp [WithinHalfRange]),
    (windowed_extremum 10).2.2 [⟨-1, 1⟩, ⟨3, 4⟩] ⟨by simp, by simp⟩ (by simp)
      (by simp [WithinHalfRange])⟩

end Tonk.Siamese
