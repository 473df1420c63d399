import Tonk.Siamese.RoundTripTime

set_option autoImplicit false

namespace Tonk.Siamese
open Protocol Serial

namespace RetransmitSearch

/-- The NACK loop over the columns that GetNextLossColumn hands out. -/
def visit (w : EncoderPacketWindow) (nowMsec retransmitMsec : Nat) :
    List Nat → RetransmitSearch → RetransmitSearch
  | [], search => search
  | column :: columns, search =>
    let nackElement := w.columnToElement column
    let search := { search with nackElement := nackElement }
    if w.count ≤ nackElement then search
    else
      let search := search.look w nowMsec retransmitMsec nackElement
      if search.sent.isSome then search else visit w nowMsec retransmitMsec columns search

theorem nackLoop_eq (w : EncoderPacketWindow) (nowMsec retransmitMsec calls : Nat)
    (ack : EncoderAcknowledgementState) (search : RetransmitSearch) :
    (nackLoop w nowMsec retransmitMsec calls ack search).2 =
      visit w nowMsec retransmitMsec (EncoderAcknowledgementState.lossColumns calls ack) search := by
  induction calls generalizing ack search with
  | zero => rfl
  | succ calls ih =>
    rw [nackLoop, EncoderAcknowledgementState.lossColumns]
    cases hnext : ack.getNextLossColumn with
    | mk ack' column =>
      cases column with
      | none => rfl
      | some column =>
        simp only [visit]
        split
        · rfl
        · split
          · rfl
          · exact ih ack' _

structure Among (w : EncoderPacketWindow) (nowMsec retransmitMsec : Nat) (P : Nat → Prop)
    (search : RetransmitSearch) : Prop where
  sent : ∀ element, search.sent = some element →
    P element ∧ retransmitMsec ≤ unsignedSub nowMsec (w.lastSendMsec element)
  oldest : P search.oldestElement

variable {w : EncoderPacketWindow} {nowMsec retransmitMsec : Nat} {P : Nat → Prop}

theorem look_nackElement (search : RetransmitSearch) (element : Nat) :
    (search.look w nowMsec retransmitMsec element).nackElement = search.nackElement := by
  unfold look
  simp only
  split
  · rfl
  · split <;> rfl

theorem Among.look {search : RetransmitSearch} (h : search.Among w nowMsec retransmitMsec P)
    {element : Nat} (he : P element) :
    (search.look w nowMsec retransmitMsec element).Among w nowMsec retransmitMsec P := by
  unfold RetransmitSearch.look
  simp only
  split
  · next hdue =>
    refine ⟨fun sent hsent => ?_, h.oldest⟩
    cases hsent
    exact ⟨he, hdue⟩
  · split
    · exact ⟨h.sent, he⟩
    · exact h

theorem Among.visit {search : RetransmitSearch} (h : search.Among w nowMsec retransmitMsec P)
    {columns : List Nat}
    (hP : ∀ column ∈ columns, w.columnToElement column < w.count → P (w.columnToElement column)) :
    (search.visit w nowMsec retransmitMsec columns).Among w nowMsec retransmitMsec P := by
  induction columns generalizing search with
  | nil => exact h
  | cons column columns ih =>
    have hmoved : { search with nackElement := w.columnToElement column }.Among w nowMsec
        retransmitMsec P := ⟨h.sent, h.oldest⟩
    simp only [RetransmitSearch.visit]
    split
    · exact hmoved
    · next hin =>
      have hlooked := hmoved.look (hP column List.mem_cons_self (Nat.lt_of_not_le hin))
      split
      · exact hlooked
      · exact ih hlooked fun c hc => hP c (List.mem_cons_of_mem _ hc)

theorem visit_nackElement {columns : List Nat} {search : RetransmitSearch}
    (hnone : (search.visit w nowMsec retransmitMsec columns).sent = none) :
    w.count ≤ (search.visit w nowMsec retransmitMsec columns).nackElement ∨
      (search.visit w nowMsec retransmitMsec columns).nackElement =
        (columns.getLast?.map w.columnToElement).getD search.nackElement := by
  induction columns generalizing search with
  | nil => exact .inr rfl
  | cons column columns ih =>
    simp only [visit] at hnone ⊢
    split
    · next hout => exact .inl hout
    · next hin =>
      rw [if_neg hin] at hnone
      split
      · next hsent =>
        rw [if_pos hsent] at hnone
        rw [hnone] at hsent
        exact absurd hsent (by decide)
      · next hgo =>
        rw [if_neg hgo] at hnone
        rcases ih hnone with hout | hlast
        · exact .inl hout
        · refine .inr (hlast.trans ?_)
          rw [look_nackElement]
          cases columns with
          | nil => rfl
          | cons c cs => simp [List.getLast?_cons]

theorem Among.flightLoop {search : RetransmitSearch} (h : search.Among w nowMsec retransmitMsec P)
    {n element : Nat} (hP : ∀ e, element ≤ e → e < element + n → P e) :
    (search.flightLoop w nowMsec retransmitMsec n element).Among w nowMsec retransmitMsec P := by
  induction n generalizing search element with
  | zero => exact h
  | succ n ih =>
    have hlooked := h.look (hP element (Nat.le_refl _) (by omega))
    simp only [RetransmitSearch.flightLoop]
    split
    · exact hlooked
    · exact ih hlooked fun e hle hlt => hP e (by omega) (by omega)

end RetransmitSearch

namespace EncoderAcknowledgementState

theorem getNextLossColumn_keeps (s : EncoderAcknowledgementState) :
    s.getNextLossColumn.1.data = s.data ∧
      s.getNextLossColumn.1.nextColumnExpected = s.nextColumnExpected := by
  obtain ⟨hdata, -, hnext, -⟩ :=
    decodeNextRange_keeps { s with lossColumn := incrementColumn1 s.lossColumn }
  unfold getNextLossColumn
  split
  · generalize { s with lossColumn := incrementColumn1 s.lossColumn }.decodeNextRange = decoded
      at hdata hnext
    obtain ⟨s', ok⟩ := decoded
    cases ok <;> exact ⟨hdata, hnext⟩
  · exact ⟨rfl, rfl⟩

theorem restartLossIterator_keeps (s : EncoderAcknowledgementState) :
    s.restartLossIterator.data = s.data ∧
      s.restartLossIterator.nextColumnExpected = s.nextColumnExpected := by
  obtain ⟨hdata, -, hnext, -⟩ := decodeNextRange_keeps { s with
    offset := 0, lossColumn := s.nextColumnExpected, lossCount := 0 }
  exact ⟨hdata, hnext⟩

theorem nackLoop_keeps (w : EncoderPacketWindow) (nowMsec retransmitMsec calls : Nat)
    (s : EncoderAcknowledgementState) (search : RetransmitSearch) :
    (search.nackLoop w nowMsec retransmitMsec calls s).1.data = s.data ∧
      (search.nackLoop w nowMsec retransmitMsec calls s).1.nextColumnExpected =
        s.nextColumnExpected := by
  induction calls generalizing s search with
  | zero => exact ⟨rfl, rfl⟩
  | succ calls ih =>
    have hkeeps := s.getNextLossColumn_keeps
    rw [RetransmitSearch.nackLoop]
    generalize s.getNextLossColumn = next at hkeeps
    obtain ⟨s', column⟩ := next
    cases column with
    | none => exact hkeeps
    | some column =>
      simp only
      split
      · exact hkeeps
      · split
        · exact hkeeps
        · exact ⟨(ih s' _).1.trans hkeeps.1, (ih s' _).2.trans hkeeps.2⟩

end EncoderAcknowledgementState

namespace FullEncoder

structure Candidates (e : FullEncoder) (P : Nat → Prop) : Prop where
  first : let firstElement := subtractColumns e.ack.nextColumnExpected e.data.window.columnStart
    isColumnDeltaNegative firstElement = false → e.data.window.firstUnremovedElement ≤ firstElement →
    firstElement < e.data.window.count → P firstElement ∧
    (e.foundOldest = true → ∀ element, element =
      subtractColumns e.oldestColumn e.data.window.columnStart → firstElement ≤ element →
      element < e.data.window.count → P element) ∧
    (e.ack.hasNegativeAcknowledgements = false → ∀ element, firstElement < element →
      element < e.data.window.count → P element) ∧
    (e.ack.hasNegativeAcknowledgements = true →
      let columns := EncoderAcknowledgementState.lossColumns e.ack.lossCalls
        e.ack.restartLossIterator
      (∀ column ∈ columns, e.data.window.columnToElement column < e.data.window.count →
        P (e.data.window.columnToElement column)) ∧
      ∀ element, (columns.getLast?.map e.data.window.columnToElement).getD firstElement < element →
        element < e.data.window.count → P element)

structure Attempted (e e' : FullEncoder) (nowMsec retransmitMsec element : Nat)
    (original : Option OriginalPacket) : Prop where
  due : retransmitMsec ≤ unsignedSub nowMsec (e.data.window.lastSendMsec element)
  window_eq : e'.data.window = { e.data.window with
    lastSendMsec := Function.update e.data.window.lastSendMsec element nowMsec }
  foundOldest_eq : e'.foundOldest = false
  original_eq : ∀ o, original = some o → o = e.data.getWindowElement element

/-- What a call of Retransmit has done: nothing, apart from remembering an element, or an attempt. -/
structure Retransmitted (e e' : FullEncoder) (nowMsec retransmitMsec : Nat) (P : Nat → Prop)
    (original : Option OriginalPacket) : Prop where
  ack_data : e'.ack.data = e.ack.data
  ack_next : e'.ack.nextColumnExpected = e.ack.nextColumnExpected
  chosen : original = none ∧ e'.data = e.data ∧ (e'.foundOldest = true →
      e.foundOldest = true ∧ e'.oldestColumn = e.oldestColumn ∨
        ∃ element, P element ∧ e'.oldestColumn = (e.data.getWindowElement element).column) ∨
    ∃ element, P element ∧ Attempted e e' nowMsec retransmitMsec element original

theorem attempted {e : FullEncoder} {nowMsec retransmitMsec element : Nat}
    (hdue : retransmitMsec ≤ unsignedSub nowMsec (e.data.window.lastSendMsec element))
    (hoff : e.foundOldest = false) :
    Attempted e (e.attemptRetransmit nowMsec element).1 nowMsec retransmitMsec element
      (e.attemptRetransmit nowMsec element).2.2 ∧
    (e.attemptRetransmit nowMsec element).1.ack = e.ack := by
  unfold attemptRetransmit
  simp only
  split
  · exact ⟨⟨hdue, rfl, hoff, nofun⟩, rfl⟩
  · refine ⟨⟨hdue, rfl, hoff, fun o ho => ?_⟩, rfl⟩
    cases ho
    rfl

def searched (e : FullEncoder) (nowMsec retransmitMsec firstElement : Nat) : RetransmitSearch :=
  let w := e.data.window
  let search : RetransmitSearch :=
    ⟨none, firstElement, w.lastSendMsec firstElement, firstElement⟩
  let search := if e.ack.hasNegativeAcknowledgements then
      search.visit w nowMsec retransmitMsec
        (EncoderAcknowledgementState.lossColumns e.ack.lossCalls e.ack.restartLossIterator)
    else search
  if search.sent.isSome then search else
    search.flightLoop w nowMsec retransmitMsec (w.count - (search.nackElement + 1))
      (search.nackElement + 1)

theorem searched_among {e : FullEncoder} (nowMsec retransmitMsec : Nat) {firstElement : Nat}
    {P : Nat → Prop} (hfirst : P firstElement)
    (hflight : e.ack.hasNegativeAcknowledgements = false → ∀ element, firstElement < element →
      element < e.data.window.count → P element)
    (hlosses : e.ack.hasNegativeAcknowledgements = true →
      let columns := EncoderAcknowledgementState.lossColumns e.ack.lossCalls
        e.ack.restartLossIterator
      (∀ column ∈ columns, e.data.window.columnToElement column < e.data.window.count →
        P (e.data.window.columnToElement column)) ∧
      ∀ element, (columns.getLast?.map e.data.window.columnToElement).getD firstElement < element →
        element < e.data.window.count → P element) :
    (e.searched nowMsec retransmitMsec firstElement).Among e.data.window nowMsec retransmitMsec
      P := by
  have hstart : RetransmitSearch.Among e.data.window nowMsec retransmitMsec P
      ⟨none, firstElement, e.data.window.lastSendMsec firstElement, firstElement⟩ := ⟨nofun, hfirst⟩
  unfold searched
  simp only
  cases hacks : e.ack.hasNegativeAcknowledgements with
  | false =>
    simp only [Bool.false_eq_true, if_false, Option.isSome_none]
    exact hstart.flightLoop fun element hle hlt => hflight hacks element (by omega) (by omega)
  | true =>
    obtain ⟨hcolumns, hbehind⟩ := hlosses hacks
    simp only [if_true]
    have hvisited := hstart.visit hcolumns
    split
    · exact hvisited
    · next hnone =>
      have hnone' := Option.not_isSome_iff_eq_none.mp (by simpa using hnone)
      refine hvisited.flightLoop fun element hle hlt => ?_
      rcases RetransmitSearch.visit_nackElement hnone' with hout | hlast
      · omega
      · exact hbehind element (by rw [← hlast]; omega) (by omega)

theorem searchOldest_retransmitted {e : FullEncoder} {nowMsec retransmitMsec firstElement : Nat}
    {P : Nat → Prop} (hoff : e.foundOldest = false) (hfirst : P firstElement)
    (hamong : (e.searched nowMsec retransmitMsec firstElement).Among e.data.window nowMsec
      retransmitMsec P) :
    Retransmitted e (e.searchOldest nowMsec retransmitMsec firstElement).1 nowMsec retransmitMsec P
      (e.searchOldest nowMsec retransmitMsec firstElement).2.2 := by
  unfold searchOldest
  simp only
  split
  · next hdue =>
    obtain ⟨hattempt, hack⟩ := attempted hdue hoff
    exact ⟨congrArg _ hack, congrArg _ hack, .inr ⟨firstElement, hfirst, hattempt⟩⟩
  · generalize hpair : (if e.ack.hasNegativeAcknowledgements = true then
        RetransmitSearch.nackLoop e.data.window nowMsec retransmitMsec e.ack.lossCalls
          e.ack.restartLossIterator
          ⟨none, firstElement, e.data.window.lastSendMsec firstElement, firstElement⟩
      else (e.ack, ⟨none, firstElement, e.data.window.lastSendMsec firstElement, firstElement⟩)) =
      pair
    obtain ⟨ack, search⟩ := pair
    have hsearched : e.searched nowMsec retransmitMsec firstElement =
        if search.sent.isSome then search else
          search.flightLoop e.data.window nowMsec retransmitMsec
            (e.data.window.count - (search.nackElement + 1)) (search.nackElement + 1) := by
      unfold searched
      simp only
      rw [← RetransmitSearch.nackLoop_eq]
      cases hacks : e.ack.hasNegativeAcknowledgements with
      | false =>
        rw [hacks] at hpair
        cases hpair
        rfl
      | true =>
        rw [hacks, if_pos rfl] at hpair
        rw [hpair]
        rfl
    have hkeeps : ack.data = e.ack.data ∧ ack.nextColumnExpected = e.ack.nextColumnExpected := by
      cases hacks : e.ack.hasNegativeAcknowledgements with
      | false =>
        rw [hacks] at hpair
        cases hpair
        exact ⟨rfl, rfl⟩
      | true =>
        rw [hacks, if_pos rfl] at hpair
        have hloop := EncoderAcknowledgementState.nackLoop_keeps e.data.window nowMsec
          retransmitMsec e.ack.lossCalls e.ack.restartLossIterator
          ⟨none, firstElement, e.data.window.lastSendMsec firstElement, firstElement⟩
        rw [hpair] at hloop
        obtain ⟨hdata, hnext⟩ := e.ack.restartLossIterator_keeps
        exact ⟨hloop.1.trans hdata, hloop.2.trans hnext⟩
    simp only
    rw [← hsearched]
    split
    · next element hsent =>
      obtain ⟨hP, hdue⟩ := hamong.sent element hsent
      obtain ⟨hattempt, hack⟩ := attempted (e := { e with ack := ack }) hdue hoff
      refine ⟨(congrArg _ hack).trans hkeeps.1, (congrArg _ hack).trans hkeeps.2,
        .inr ⟨element, hP, ?_⟩⟩
      exact ⟨hattempt.due, hattempt.window_eq, hattempt.foundOldest_eq, hattempt.original_eq⟩
    · exact ⟨hkeeps.1, hkeeps.2, .inl ⟨rfl, rfl, fun _ => .inr ⟨_, hamong.oldest, rfl⟩⟩⟩

theorem Candidates.retransmit {e : FullEncoder} {P : Nat → Prop} (h : e.Candidates P)
    (nowMsec retransmitMsec : Nat) :
    Retransmitted e (e.retransmit nowMsec retransmitMsec).1 (nowMsec % 2 ^ 32) retransmitMsec P
      (e.retransmit nowMsec retransmitMsec).2.2 := by
  unfold FullEncoder.retransmit
  simp only
  split
  · exact ⟨rfl, rfl, .inl ⟨rfl, rfl, fun hfound => .inl ⟨hfound, rfl⟩⟩⟩
  · split
    · exact ⟨rfl, rfl, .inl ⟨rfl, rfl, nofun⟩⟩
    · split
      · exact ⟨rfl, rfl, .inl ⟨rfl, rfl, fun hfound => .inl ⟨hfound, rfl⟩⟩⟩
      · next hin =>
        rw [not_or, not_or] at hin
        obtain ⟨hpos, hkept, hlt⟩ := hin
        obtain ⟨hfirst, holdest, hflight, hlosses⟩ := h.first (by simpa using hpos)
          (Nat.le_of_not_lt hkept) (Nat.lt_of_not_le hlt)
        split
        · next hfound =>
          obtain ⟨hfound, -, hge, hlt'⟩ := hfound
          split
          · exact ⟨rfl, rfl, .inl ⟨rfl, rfl, fun hfound => .inl ⟨hfound, rfl⟩⟩⟩
          · next hdue =>
            obtain ⟨hattempt, hack⟩ := attempted (e := { e with foundOldest := false })
              (Nat.le_of_not_lt hdue) rfl
            exact ⟨congrArg _ hack, congrArg _ hack, .inr ⟨_, holdest hfound _ rfl hge hlt',
              hattempt.due, hattempt.window_eq, hattempt.foundOldest_eq, hattempt.original_eq⟩⟩
        · have hsearched := searchOldest_retransmitted (e := { e with foundOldest := false }) rfl
            hfirst (searched_among (e := { e with foundOldest := false }) (nowMsec % 2 ^ 32)
              retransmitMsec hfirst hflight hlosses)
          refine ⟨hsearched.ack_data, hsearched.ack_next, ?_⟩
          rcases hsearched.chosen with ⟨hnone, hdata, hoften⟩ | ⟨element, hP, hattempt⟩
          · refine .inl ⟨hnone, hdata, fun hfound => ?_⟩
            rcases hoften hfound with ⟨hfalse, -⟩ | hP
            · exact absurd hfalse Bool.false_ne_true
            · exact .inr hP
          · exact .inr ⟨element, hP, hattempt.due, hattempt.window_eq, hattempt.foundOldest_eq,
              hattempt.original_eq⟩

end FullEncoder
end Tonk.Siamese
