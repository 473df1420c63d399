import Tonk.Session.Datagram

set_option autoImplicit false

namespace Tonk.Session
open Protocol Serial LittleEndian

/-- A number field keeps its low bytes; what the 4-byte store leaves behind it is overwritten. -/
theorem writeFooterField_append {n : Nat} (hn : n ≤ 4) (pre rest : Bytes) (field : Nat)
    (hrest : 4 ≤ rest.length) :
    ∃ rest' : Bytes, rest'.length + n = rest.length ∧
      writeFooterField (pre ++ rest) pre.length field =
        pre ++ LittleEndian.bytes n field ++ rest' := by
  have hsplit : LittleEndian.bytes 4 field =
      LittleEndian.bytes n field ++ LittleEndian.bytes (4 - n) (field / 256 ^ n) := by
    rw [← bytes_append, Nat.add_sub_cancel' hn]
  refine ⟨LittleEndian.bytes (4 - n) (field / 256 ^ n) ++ rest.drop 4, ?_, ?_⟩
  · simp
    omega
  · rw [writeFooterField, writeAt_append, length_bytes, hsplit]
    simp

/-- The bytes a tag covers, with the timestamp, the flags and the tag behind them. -/
def tail (tagged : Bytes) (timestamp flags tag : Nat) : Bytes :=
  tagged ++ (LittleEndian.bytes 3 timestamp ++ ([UInt8.ofNat flags] ++ LittleEndian.bytes 2 tag))

section tail

variable (tagged : Bytes) (timestamp : Nat) {flags : Nat} (tag : Nat)

theorem length_tail : (tail tagged timestamp flags tag).length =
    tagged.length + kUntaggedDatagramBytes := by
  simp [tail, kUntaggedDatagramBytes]

theorem timestampStart_tail : timestampStart (tail tagged timestamp flags tag) = tagged.length := by
  rw [timestampStart, length_tail, Nat.add_sub_cancel]

theorem datagramFlags_tail (hflags : flags < 256) :
    datagramFlags (tail tagged timestamp flags tag) = ⟨flags⟩ := by
  have hoff : (tail tagged timestamp flags tag).length - kFlagsBytes - kEncryptionTagBytes =
      (tagged ++ LittleEndian.bytes 3 timestamp).length := by
    rw [length_tail, List.length_append, length_bytes]
    simp only [kUntaggedDatagramBytes, kFlagsBytes, kEncryptionTagBytes]
    omega
  rw [datagramFlags, hoff, tail, ← List.append_assoc, List.getD_append_right _ _ _ _ (Nat.le_refl _),
    Nat.sub_self]
  simp [Nat.mod_eq_of_lt hflags]

theorem datagramTimestamp_tail :
    datagramTimestamp (tail tagged timestamp flags tag) = timestamp % 2 ^ 24 := by
  have htake : (LittleEndian.bytes 3 timestamp ++
      ([UInt8.ofNat flags] ++ LittleEndian.bytes 2 tag)).take 4 =
      LittleEndian.bytes 3 timestamp ++ [UInt8.ofNat flags] := by
    simp [List.take_append, List.take_of_length_le]
  have hmask := value_append_mod (LittleEndian.bytes 3 timestamp) [UInt8.ofNat flags]
  rw [length_bytes, value_bytes] at hmask
  rw [datagramTimestamp, timestampStart_tail, tail, List.drop_left, htake]
  exact hmask

theorem drop_tail_tag (htag : tag < 2 ^ 16) :
    value ((tail tagged timestamp flags tag).drop
      ((tail tagged timestamp flags tag).length - kEncryptionTagBytes)) = tag := by
  have hoff : (tail tagged timestamp flags tag).length - kEncryptionTagBytes =
      (tagged ++ LittleEndian.bytes 3 timestamp ++ [UInt8.ofNat flags]).length := by
    rw [length_tail]
    simp [kUntaggedDatagramBytes, kEncryptionTagBytes]
  have hsplit : tail tagged timestamp flags tag =
      tagged ++ LittleEndian.bytes 3 timestamp ++ [UInt8.ofNat flags] ++ LittleEndian.bytes 2 tag := by
    simp [tail]
  rw [hoff, hsplit, List.drop_left, value_bytes]
  exact Nat.mod_eq_of_lt htag

end tail

namespace SessionOutgoing

def handshakeWire (s : SessionOutgoing) : Bytes :=
  match s.handshake with
  | none => []
  | some h => h.wire

def fields (s : SessionOutgoing) (sequenceNumberBytes sequenceNumber : Nat) : Bytes :=
  LittleEndian.bytes sequenceNumberBytes sequenceNumber ++
    LittleEndian.bytes s.nonceBytes s.nextNonce ++ s.handshakeWire

theorem nonceBytes_le (s : SessionOutgoing) : s.nonceBytes ≤ 3 := NonceLink.nonceFieldBytes_le _ _ _

theorem length_handshakeWire (s : SessionOutgoing) :
    s.handshakeWire.length = if s.handshake.isSome then kHandshakeBytes else 0 := by
  unfold handshakeWire
  cases s.handshake with
  | none => rfl
  | some h => exact h.wire_length

theorem writeFields_eq (s : SessionOutgoing) {n : Nat} (hn : n ≤ 3) (sequenceNumber : Nat)
    (messages scratch : Bytes) (hroom : kMaxOverheadBytes ≤ scratch.length) :
    ∃ rest : Bytes, kUntaggedDatagramBytes ≤ rest.length ∧
      s.writeFields (messages ++ scratch) messages.length n sequenceNumber =
        (messages ++ s.fields n sequenceNumber ++ rest,
          (messages ++ s.fields n sequenceNumber).length) := by
  have hoverhead : kMaxOverheadBytes = 24 := rfl
  have hnonce := s.nonceBytes_le
  obtain ⟨rest₁, hlen₁, hseq⟩ : ∃ rest₁ : Bytes, rest₁.length + n = scratch.length ∧
      (if 0 < n then writeFooterField (messages ++ scratch) messages.length sequenceNumber
        else messages ++ scratch) =
        messages ++ LittleEndian.bytes n sequenceNumber ++ rest₁ := by
    by_cases hpos : 0 < n
    · rw [if_pos hpos]
      exact writeFooterField_append (by omega) messages scratch sequenceNumber (by omega)
    · obtain rfl : n = 0 := by omega
      exact ⟨scratch, rfl, by simp [LittleEndian.bytes]⟩
  obtain ⟨rest₂, hlen₂, hwrite⟩ := writeFooterField_append (n := s.nonceBytes) (by omega)
    (messages ++ LittleEndian.bytes n sequenceNumber) rest₁ s.nextNonce (by omega)
  rw [List.length_append, length_bytes] at hwrite
  simp only [writeFields, hseq, hwrite, fields, handshakeWire]
  cases s.handshake with
  | none =>
    refine ⟨rest₂, by simp only [kUntaggedDatagramBytes]; omega, ?_⟩
    simp [Nat.add_assoc]
  | some h =>
    have hwire := h.wire_length
    have hat := writeAt_append (messages ++ LittleEndian.bytes n sequenceNumber ++
      LittleEndian.bytes s.nonceBytes s.nextNonce) rest₂ h.wire
    simp only [List.length_append, length_bytes] at hat
    refine ⟨rest₂.drop kHandshakeBytes, ?_, ?_⟩
    · rw [List.length_drop]
      simp only [kUntaggedDatagramBytes, kHandshakeBytes]
      omega
    · simp only [hat, hwire]
      simp [hwire, Nat.add_assoc]

def wire (t1ha : T1ha) (s : SessionOutgoing) (flags : Nat) (messages fields : Bytes)
    (nowUsec : Nat) : Bytes :=
  let timestamp24 := (nowUsec >>> kTime23LostBits) % 2 ^ 32
  let tagged := s.encryptor.cipher messages s.nextNonce ++ fields
  let tag := s.encryptor.tag t1ha tagged s.nextNonce ^^^
    s.encryptor.tagInt (timestampFlagTagInt timestamp24 flags)
  tail tagged timestamp24 flags tag

theorem writeSealed_eq (t1ha : T1ha) (s : SessionOutgoing) (flags : Nat)
    (messages fields rest : Bytes) (nowUsec : Nat) (hroom : kUntaggedDatagramBytes ≤ rest.length) :
    s.writeSealed t1ha flags (messages ++ fields ++ rest) messages.length
      (messages ++ fields).length nowUsec = s.wire t1ha flags messages fields nowUsec := by
  match rest, hroom with
  | r0 :: r1 :: r2 :: r3 :: r4 :: r5 :: rest, _ =>
    have hflags : writeAt (messages ++ fields ++ r0 :: r1 :: r2 :: r3 :: r4 :: r5 :: rest)
        ((messages ++ fields).length + kTimestampBytes) [UInt8.ofNat flags] =
        messages ++ (fields ++ r0 :: r1 :: r2 :: UInt8.ofNat flags :: r4 :: r5 :: rest) := by
      have h := writeAt_append (messages ++ fields ++ [r0, r1, r2]) (r3 :: r4 :: r5 :: rest)
        [UInt8.ofNat flags]
      simpa [kTimestampBytes, Nat.add_assoc] using h
    have hcipher : ∀ tail : Bytes, writeAt (messages ++ tail) 0
        (s.encryptor.cipher messages s.nextNonce) =
        s.encryptor.cipher messages s.nextNonce ++ tail := by
      intro tail
      have h := writeAt_append [] (messages ++ tail) (s.encryptor.cipher messages s.nextNonce)
      rw [SimpleCipher.length_cipher] at h
      simpa using h
    have hlen : (s.encryptor.cipher messages s.nextNonce ++ fields).length =
        (messages ++ fields).length := by
      simp [SimpleCipher.length_cipher]
    simp only [writeSealed, hflags, List.take_left, hcipher, wire, tail]
    generalize s.encryptor.cipher messages s.nextNonce = ciphered at hlen ⊢
    rw [← hlen, ← List.append_assoc, List.take_left]
    generalize ciphered ++ fields = tagged
    generalize (nowUsec >>> kTime23LostBits) % 2 ^ 32 = timestamp
    generalize s.encryptor.tag t1ha tagged s.nextNonce ^^^ _ = tag
    have htimestamp : writeAt (tagged ++ r0 :: r1 :: r2 :: UInt8.ofNat flags :: r4 :: r5 :: rest)
        tagged.length (LittleEndian.bytes 3 timestamp) =
        tagged ++ LittleEndian.bytes 3 timestamp ++ [UInt8.ofNat flags] ++ r4 :: r5 :: rest := by
      rw [writeAt_append, length_bytes]
      simp
    have htag := writeAt_append (tagged ++ LittleEndian.bytes 3 timestamp ++ [UInt8.ofNat flags])
      (r4 :: r5 :: rest) (LittleEndian.bytes 2 tag)
    simp only [List.length_append, length_bytes, List.length_cons, List.length_nil] at htag
    rw [htimestamp]
    simp only [kTimestampBytes, kFlagsBytes]
    rw [htag, List.take_left']
    · simp
    · simp [kUntaggedDatagramBytes]

theorem footerFlags_reads (s : SessionOutgoing) (onlyFEC : Bool) {n : Nat} (hn : n ≤ 3) :
    let flags := s.footerFlags (if onlyFEC then kOnlyFECMask ||| kConnectionMask
      else kConnectionMask) n
    flags < 256 ∧ (⟨flags⟩ : FlagsReader).isConnectionDatagram = true ∧
      (⟨flags⟩ : FlagsReader).isOnlyFEC = onlyFEC ∧
      (⟨flags⟩ : FlagsReader).shouldCompressSequenceNumbers = s.shouldCompressSequenceNumbers ∧
      (⟨flags⟩ : FlagsReader).sequenceNumberBytes = n ∧
      (⟨flags⟩ : FlagsReader).encryptionNonceBytes = s.nonceBytes ∧
      (⟨flags⟩ : FlagsReader).handshakeBytes = s.handshakeWire.length := by
  have hnonce := s.nonceBytes_le
  simp only [footerFlags, length_handshakeWire]
  generalize s.nonceBytes = m at hnonce
  generalize s.shouldCompressSequenceNumbers = compress
  generalize s.handshake.isSome = attached
  revert onlyFEC compress attached
  interval_cases n <;> interval_cases m <;> decide

theorem writeDatagram_eq (t1ha : T1ha) (s : SessionOutgoing) (flags : Nat) {n : Nat} (hn : n ≤ 3)
    (sequenceNumber : Nat) (messages scratch : Bytes) (nowUsec : Nat)
    (hroom : kMaxOverheadBytes ≤ scratch.length) :
    (s.writeDatagram t1ha flags (messages ++ scratch) messages.length n sequenceNumber nowUsec).2 =
      s.wire t1ha (s.footerFlags flags n) messages (s.fields n sequenceNumber) nowUsec := by
  obtain ⟨rest, hrest, hfields⟩ := s.writeFields_eq hn sequenceNumber messages scratch hroom
  simp only [writeDatagram, hfields]
  exact s.writeSealed_eq t1ha _ messages _ rest nowUsec hrest

end SessionOutgoing

/-- A field in front of enough other bytes is read back, less what it could not hold. -/
theorem readFooterField_bytes (pre post : Bytes) {n : Nat} (hn : n ≤ 4) (field : Nat)
    (hpost : 4 ≤ n + post.length) :
    readFooterField (pre ++ (LittleEndian.bytes n field ++ post)) (pre.length + n) n =
      .ok (field % 256 ^ n) := by
  have hread := readAt_field pre (LittleEndian.bytes n field) post (by simpa using hn)
    (by simpa using hpost)
  have hmask := value_append_mod (LittleEndian.bytes n field)
    (post.take (4 - (LittleEndian.bytes n field).length))
  rw [length_bytes, value_bytes] at hmask
  have hoff : ((pre.length : Int) + n - n) = pre.length := by omega
  rw [readFooterField, hoff, hread]
  simp only [length_bytes]
  exact congrArg Except.ok hmask

/-- A datagram of the session: its fields in front of the 6 untagged bytes, and flags that give
their sizes. -/
structure LaidOut (s : SessionOutgoing) (n sequenceNumber : Nat) (ciphered data : Bytes) : Prop where
  split : ∃ rest : Bytes, rest.length = kUntaggedDatagramBytes ∧
    data = ciphered ++ (LittleEndian.bytes n sequenceNumber ++
      (LittleEndian.bytes s.nonceBytes s.nextNonce ++ (s.handshakeWire ++ rest)))
  sequence_eq : (datagramFlags data).sequenceNumberBytes = n
  nonce_eq : (datagramFlags data).encryptionNonceBytes = s.nonceBytes
  handshake_eq : (datagramFlags data).handshakeBytes = s.handshakeWire.length

namespace LaidOut

variable {s : SessionOutgoing} {n sequenceNumber : Nat} {ciphered data : Bytes}

theorem length_eq (h : LaidOut s n sequenceNumber ciphered data) : data.length =
    ciphered.length + n + s.nonceBytes + s.handshakeWire.length + kUntaggedDatagramBytes := by
  obtain ⟨rest, hrest, hdata⟩ := h.split
  rw [hdata]
  simp only [List.length_append, length_bytes, hrest]
  omega

theorem connectedFooterBytes_eq (h : LaidOut s n sequenceNumber ciphered data) :
    ciphered.length + (datagramFlags data).connectedFooterBytes = data.length := by
  rw [FlagsReader.connectedFooterBytes, h.sequence_eq, h.nonce_eq, h.handshake_eq, h.length_eq]
  simp only [kEncryptionTagBytes, kFlagsBytes, kTimestampBytes, kUntaggedDatagramBytes]
  omega

theorem handshakeStart_eq (h : LaidOut s n sequenceNumber ciphered data) :
    handshakeStart data = ciphered.length + n + s.nonceBytes := by
  rw [handshakeStart, timestampStart, h.handshake_eq, h.length_eq]
  omega

theorem nonceStart_eq (h : LaidOut s n sequenceNumber ciphered data) :
    nonceStart data = ciphered.length + n := by
  rw [nonceStart, h.handshakeStart_eq, h.nonce_eq]
  omega

theorem datagramHandshake_eq (h : LaidOut s n sequenceNumber ciphered data) :
    datagramHandshake data = s.handshakeWire := by
  have hstart := h.handshakeStart_eq
  have hbytes := h.handshake_eq
  obtain ⟨rest, -, hdata⟩ := h.split
  have hpre : data = ciphered ++ LittleEndian.bytes n sequenceNumber ++
      LittleEndian.bytes s.nonceBytes s.nextNonce ++ (s.handshakeWire ++ rest) := by
    simp [hdata]
  rw [datagramHandshake, hstart, hbytes, hpre, List.drop_left', List.take_left]
  simp [Nat.add_assoc]

theorem not_dropsHandshake (h : LaidOut s n sequenceNumber ciphered data) :
    ¬ SessionIncoming.DropsHandshake data := by
  rintro ⟨hpos, hdrop⟩
  have hdata := h.datagramHandshake_eq
  have hlen := h.length_eq
  rw [datagramHandshake, h.handshakeStart_eq, h.handshake_eq] at hdata
  rw [h.handshake_eq] at hpos
  cases hattached : s.handshake with
  | none =>
    rw [SessionOutgoing.handshakeWire, hattached] at hpos
    cases hpos
  | some attached =>
    have hwire : s.handshakeWire = attached.wire := by
      rw [SessionOutgoing.handshakeWire, hattached]
    rw [hwire, attached.wire_length] at hdata hlen
    have hoff : (data.length : Int) - kHandshakeRightOffset =
        (ciphered.length + n + s.nonceBytes : Nat) := by
      rw [hlen, kHandshakeRightOffset]
      omega
    have hread : readAt data (data.length - kHandshakeRightOffset) kHandshakeBytes =
        .ok attached.wire := by
      rw [hoff, readAt_inside (by omega) (by rw [hlen]; omega), Int.toNat_natCast, hdata]
    rw [onUnauthenticatedHandshake, if_neg (by rw [hlen, kHandshakeRightOffset]; omega), hread]
      at hdrop
    have htype := getType_wire attached
    cases attached with
    | c2sConnectionRequest key =>
      simp [bind, Except.bind, pure, Except.pure, htype, Handshake.type] at hdrop
    | p2pConnectionRequest key =>
      simp [bind, Except.bind, pure, Except.pure, htype, Handshake.type] at hdrop
    | c2sUpdateSourceAddress key id =>
      simp [bind, Except.bind, pure, Except.pure, htype, Handshake.type] at hdrop

theorem datagramNonce_eq (h : LaidOut s n sequenceNumber ciphered data) :
    datagramNonce data = s.nextNonce % 256 ^ s.nonceBytes := by
  have hstart := h.nonceStart_eq
  have hbytes := h.nonce_eq
  obtain ⟨rest, hrest, hdata⟩ := h.split
  have hpre : data = ciphered ++ LittleEndian.bytes n sequenceNumber ++
      (LittleEndian.bytes s.nonceBytes s.nextNonce ++ (s.handshakeWire ++ rest)) := by
    simp [hdata]
  rw [datagramNonce, hbytes]
  split
  · next hzero =>
    rw [hzero, pow_zero, Nat.mod_one]
  · have hle := s.nonceBytes_le
    have hmask := value_append_mod (LittleEndian.bytes s.nonceBytes s.nextNonce)
      ((s.handshakeWire ++ rest).take (4 - s.nonceBytes))
    rw [length_bytes, value_bytes] at hmask
    rw [hstart, hpre, List.drop_left' (by simp), List.take_append, List.take_of_length_le,
      length_bytes]
    · exact hmask
    · rw [length_bytes]
      omega

theorem readSequence_eq (h : LaidOut s n sequenceNumber ciphered data) (hn : n ≤ 3) :
    readFooterField data (nonceStart data) (datagramFlags data).sequenceNumberBytes =
      .ok (sequenceNumber % 256 ^ n) := by
  have hstart := h.nonceStart_eq
  have hbytes := h.sequence_eq
  obtain ⟨rest, hrest, hdata⟩ := h.split
  have hread := readFooterField_bytes ciphered
    (LittleEndian.bytes s.nonceBytes s.nextNonce ++ (s.handshakeWire ++ rest)) (n := n) (by omega)
    sequenceNumber (by simp only [List.length_append, hrest, kUntaggedDatagramBytes]; omega)
  rw [← hdata] at hread
  rw [hstart, hbytes]
  push_cast
  exact hread

theorem readPayload_eq (h : LaidOut s n sequenceNumber ciphered data) (hlen : data.length < 2 ^ 32) :
    readAt data 0 (sub 32 data.length (datagramFlags data).connectedFooterBytes) = .ok ciphered := by
  have hsum := h.connectedFooterBytes_eq
  obtain ⟨rest, -, hdata⟩ := h.split
  have hbytes : data.length - (datagramFlags data).connectedFooterBytes = ciphered.length := by omega
  rw [SessionIncoming.sub32_of_le hlen (by omega), hbytes, readAt_zero (by omega)]
  rw [hdata, List.take_left]

end LaidOut

theorem laidOut_tail {s : SessionOutgoing} {flags n : Nat} (sequenceNumber timestamp tag : Nat)
    (ciphered : Bytes) (hflags : flags < 256)
    (hseq : (⟨flags⟩ : FlagsReader).sequenceNumberBytes = n)
    (hnonce : (⟨flags⟩ : FlagsReader).encryptionNonceBytes = s.nonceBytes)
    (hhandshake : (⟨flags⟩ : FlagsReader).handshakeBytes = s.handshakeWire.length) :
    LaidOut s n sequenceNumber ciphered
      (tail (ciphered ++ s.fields n sequenceNumber) timestamp flags tag) := by
  have hread := datagramFlags_tail (ciphered ++ s.fields n sequenceNumber) timestamp tag hflags
  refine ⟨⟨LittleEndian.bytes 3 timestamp ++ ([UInt8.ofNat flags] ++ LittleEndian.bytes 2 tag),
    ?_, ?_⟩, ?_, ?_, ?_⟩
  · simp [kUntaggedDatagramBytes]
  · simp [tail, SessionOutgoing.fields]
  · rw [hread, hseq]
  · rw [hread, hnonce]
  · rw [hread, hhandshake]

theorem tagVerifies_wire (t1ha : T1ha) {s : SessionOutgoing} {r : SessionIncoming} {flags : Nat}
    (messages fields : Bytes) (nowUsec : Nat) (hflags : flags < 256)
    (hkey : r.decryptor = s.encryptor) :
    r.TagVerifies t1ha (s.wire t1ha flags messages fields nowUsec)
      ((nowUsec >>> kTime23LostBits) % 2 ^ 24) s.nextNonce := by
  have hint : timestampFlagTagInt ((nowUsec >>> kTime23LostBits) % 2 ^ 24) flags =
      timestampFlagTagInt ((nowUsec >>> kTime23LostBits) % 2 ^ 32) flags := by
    rw [← timestampFlagTagInt_mod (_ % 2 ^ 32), Nat.mod_mod_of_dvd _ (by decide)]
  simp only [SessionOutgoing.wire]
  generalize s.encryptor.cipher messages s.nextNonce ++ fields = tagged
  have htag := Nat.xor_lt_two_pow (s.encryptor.tag_lt t1ha tagged s.nextNonce)
    (s.encryptor.tagInt_lt (timestampFlagTagInt ((nowUsec >>> kTime23LostBits) % 2 ^ 32) flags))
  rw [SessionIncoming.TagVerifies, drop_tail_tag _ _ _ htag, datagramFlags_tail _ _ _ hflags, hkey,
    hint, Nat.xor_xor_cancel_right, length_tail, Nat.add_sub_cancel, tail, List.take_left]

theorem SessionIncoming.openDatagram_wire {t1ha : T1ha} {s : SessionOutgoing} {r : SessionIncoming}
    {flags n sequenceNumber nowUsec : Nat} {messages : Bytes} (hn : n ≤ 3)
    (hlen : messages.length + kMaxOverheadBytes < 2 ^ 32) (hflags : flags < 256)
    (hseq : (⟨flags⟩ : FlagsReader).sequenceNumberBytes = n)
    (hnonce : (⟨flags⟩ : FlagsReader).encryptionNonceBytes = s.nonceBytes)
    (hhandshake : (⟨flags⟩ : FlagsReader).handshakeBytes = s.handshakeWire.length)
    (hshutdown : r.isShutdown = false) (hkey : r.decryptor = s.encryptor)
    (hread : r.antiReplay.readNonce (s.nextNonce % 256 ^ s.nonceBytes) s.nonceBytes = s.nextNonce)
    (hfresh : r.antiReplay.isDuplicate s.nextNonce = false) :
    r.openDatagram t1ha (s.wire t1ha flags messages (s.fields n sequenceNumber) nowUsec) =
      .ok (.opened
        { flags := ⟨flags⟩
          remoteSendTS24 := (nowUsec >>> kTime23LostBits) % 2 ^ 24
          handshake := s.handshakeWire
          partialNonce := s.nextNonce % 256 ^ s.nonceBytes
          nonce := s.nextNonce
          partialSeq := sequenceNumber % 256 ^ n
          messagePayload := messages }) := by
  have hverifies := tagVerifies_wire t1ha messages (s.fields n sequenceNumber) nowUsec hflags hkey
  have hlaid : LaidOut s n sequenceNumber (s.encryptor.cipher messages s.nextNonce)
      (s.wire t1ha flags messages (s.fields n sequenceNumber) nowUsec) :=
    laidOut_tail sequenceNumber _ _ _ hflags hseq hnonce hhandshake
  have htimestamp : datagramTimestamp
      (s.wire t1ha flags messages (s.fields n sequenceNumber) nowUsec) =
      (nowUsec >>> kTime23LostBits) % 2 ^ 24 := by
    rw [SessionOutgoing.wire, datagramTimestamp_tail, Nat.mod_mod_of_dvd _ (by decide)]
  have hreads : datagramFlags (s.wire t1ha flags messages (s.fields n sequenceNumber) nowUsec) =
      ⟨flags⟩ := datagramFlags_tail _ _ _ hflags
  generalize s.wire t1ha flags messages (s.fields n sequenceNumber) nowUsec = data
    at hverifies hlaid htimestamp hreads ⊢
  have hbytes := hlaid.length_eq
  have hfooter : kUntaggedDatagramBytes + (datagramFlags data).handshakeBytes +
      (datagramFlags data).encryptionNonceBytes ≤ data.length := by
    rw [hlaid.handshake_eq, hlaid.nonce_eq]
    omega
  have hshort : data.length < 2 ^ 32 := by
    have hwire := s.length_handshakeWire
    have hle := s.nonceBytes_le
    have hoverhead : kMaxOverheadBytes = 24 := rfl
    have huntagged : kUntaggedDatagramBytes = 6 := rfl
    rw [SimpleCipher.length_cipher] at hbytes
    split at hwire
    · simp only [kHandshakeBytes] at hwire
      omega
    · omega
  rw [openDatagram_eq hshutdown (by omega), if_neg hlaid.not_dropsHandshake,
    openFields_eq (by omega)]
  simp only [hlaid.nonce_eq, hlaid.datagramNonce_eq, hread, hfresh, Bool.false_eq_true, if_false]
  rw [openTagged_eq hshort (by omega), htimestamp, if_pos hverifies]
  simp only [hlaid.readPayload_eq hshort, hlaid.readSequence_eq hn, hlaid.datagramHandshake_eq]
  rw [hreads, hkey]
  simp only [bind, Except.bind, pure, Except.pure, SimpleCipher.cipher_cipher]

/-- The three functions that build a datagram, with what they put into it. -/
inductive Builder where
  | sendQueuedDatagram (messages : Bytes) (random sequenceNumberBytes sequenceNumber : Nat)
  | postDummyDatagram
  | postRecovery (recovery : Bytes)

namespace Builder

def build (t1ha : T1ha) (s : SessionOutgoing) (scratch : Bytes) (nowUsec : Nat) :
    Builder → SessionOutgoing × Bytes
  | .sendQueuedDatagram messages random sequenceNumberBytes sequenceNumber =>
    s.sendQueuedDatagram t1ha messages scratch random sequenceNumberBytes sequenceNumber nowUsec
  | .postDummyDatagram => s.postDummyDatagram t1ha scratch nowUsec
  | .postRecovery recovery => s.postRecovery t1ha recovery scratch nowUsec

def messages : Builder → Bytes
  | .sendQueuedDatagram messages _ _ _ => messages
  | .postDummyDatagram => SessionOutgoing.dummyMessage
  | .postRecovery recovery => recovery

def padding (s : SessionOutgoing) : Builder → Bytes
  | .sendQueuedDatagram messages random _ _ => paddingFrame s.enablePadding random messages.length
  | _ => []

def messageSection (b : Builder) (s : SessionOutgoing) : Bytes := b.messages ++ b.padding s

def sequenceNumberBytes : Builder → Nat
  | .sendQueuedDatagram _ _ sequenceNumberBytes _ => sequenceNumberBytes
  | _ => 0

def sequenceNumber : Builder → Nat
  | .sendQueuedDatagram _ _ _ sequenceNumber => sequenceNumber
  | _ => 0

def onlyFEC : Builder → Bool
  | .postRecovery _ => true
  | _ => false

/-- The allocation behind the messages has room for the footer, and 32 bits hold the size of the
datagram. -/
structure Fits (b : Builder) (s : SessionOutgoing) (scratch : Bytes) : Prop where
  sequenceNumberBytes_le : b.sequenceNumberBytes ≤ 3
  room : (b.padding s).length + kMaxOverheadBytes ≤ scratch.length
  length_lt : (b.messageSection s).length + kMaxOverheadBytes < 2 ^ 32

theorem length_dummyMessage : SessionOutgoing.dummyMessage.length = kDummyBytes := by
  rw [SessionOutgoing.dummyMessage, Frame.wire_length, List.length_replicate]
  rfl

theorem build_eq {t1ha : T1ha} {s : SessionOutgoing} {scratch : Bytes} {nowUsec : Nat} {b : Builder}
    (hfits : b.Fits s scratch) :
    (b.build t1ha s scratch nowUsec).2 =
      s.wire t1ha
        (s.footerFlags (if b.onlyFEC then kOnlyFECMask ||| kConnectionMask else kConnectionMask)
          b.sequenceNumberBytes)
        (b.messageSection s) (s.fields b.sequenceNumberBytes b.sequenceNumber) nowUsec := by
  have hroom := hfits.room
  have hbytes := hfits.sequenceNumberBytes_le
  cases b with
  | sendQueuedDatagram messages random n sequenceNumber =>
    simp only [build, SessionOutgoing.sendQueuedDatagram]
    rw [writeAt_append, ← List.length_append]
    refine s.writeDatagram_eq t1ha _ hbytes sequenceNumber _ _ nowUsec ?_
    rw [List.length_drop]
    simp only [padding] at hroom
    omega
  | postDummyDatagram =>
    have h := s.writeDatagram_eq t1ha kConnectionMask (Nat.zero_le 3) 0
      SessionOutgoing.dummyMessage scratch nowUsec (by simpa [padding] using hroom)
    rw [length_dummyMessage] at h
    simpa [build, SessionOutgoing.postDummyDatagram, messageSection, messages, padding, onlyFEC,
      sequenceNumberBytes, sequenceNumber] using h
  | postRecovery recovery =>
    have h := s.writeDatagram_eq t1ha (kOnlyFECMask ||| kConnectionMask) (Nat.zero_le 3) 0
      recovery scratch nowUsec (by simpa [padding] using hroom)
    simpa [build, SessionOutgoing.postRecovery, messageSection, messages, padding, onlyFEC,
      sequenceNumberBytes, sequenceNumber] using h

end Builder

/-- A datagram of any of the builders passes DatagramIsTruncated and is taken apart by
ProcessDatagram into the flags, timestamp, handshake, nonce bytes, sequence bytes and message
section it was built from, with a tag that verifies, by a receiver with the same key whose register
reads the nonce it was sent under. -/
theorem datagram_round_trip (t1ha : T1ha) (s : SessionOutgoing) (r : SessionIncoming) (b : Builder)
    (scratch : Bytes) (nowUsec : Nat) (hfits : b.Fits s scratch) (hshutdown : r.isShutdown = false)
    (hkey : r.decryptor = s.encryptor)
    (hread : r.antiReplay.readNonce (s.nextNonce % 256 ^ s.nonceBytes) s.nonceBytes = s.nextNonce)
    (hfresh : r.antiReplay.isDuplicate s.nextNonce = false) :
    datagramIsTruncated (b.build t1ha s scratch nowUsec).2 = false ∧
      ∃ flags : FlagsReader,
        flags.isConnectionDatagram = true ∧ flags.isOnlyFEC = b.onlyFEC ∧
        flags.shouldCompressSequenceNumbers = s.shouldCompressSequenceNumbers ∧
        flags.sequenceNumberBytes = b.sequenceNumberBytes ∧
        flags.encryptionNonceBytes = s.nonceBytes ∧
        flags.handshakeBytes = s.handshakeWire.length ∧
        r.openDatagram t1ha (b.build t1ha s scratch nowUsec).2 =
          .ok (.opened
            { flags
              remoteSendTS24 := (nowUsec >>> kTime23LostBits) % 2 ^ 24
              handshake := s.handshakeWire
              partialNonce := s.nextNonce % 256 ^ s.nonceBytes
              nonce := s.nextNonce
              partialSeq := b.sequenceNumber % 256 ^ b.sequenceNumberBytes
              messagePayload := b.messageSection s }) := by
  obtain ⟨hflags, hconnection, hfec, hcompress, hseq, hnonce, hhandshake⟩ :=
    s.footerFlags_reads b.onlyFEC hfits.sequenceNumberBytes_le
  rw [Builder.build_eq hfits]
  refine ⟨?_, _, hconnection, hfec, hcompress, hseq, hnonce, hhandshake,
    SessionIncoming.openDatagram_wire hfits.sequenceNumberBytes_le hfits.length_lt hflags hseq hnonce
      hhandshake hshutdown hkey hread hfresh⟩
  have hlaid : LaidOut s b.sequenceNumberBytes b.sequenceNumber
      (s.encryptor.cipher (b.messageSection s) s.nextNonce)
      (s.wire t1ha _ (b.messageSection s) (s.fields b.sequenceNumberBytes b.sequenceNumber) nowUsec) :=
    laidOut_tail b.sequenceNumber _ _ _ hflags hseq hnonce hhandshake
  have hfooter := hlaid.connectedFooterBytes_eq
  have hlen := hlaid.length_eq
  generalize s.wire t1ha _ (b.messageSection s) _ nowUsec = data at hfooter hlen ⊢
  rw [datagramIsTruncated, if_neg]
  · simp only [Bool.and_eq_false_imp, decide_eq_false_iff_not]
    omega
  · simp only [kEncryptionTagBytes, kFlagsBytes, kUntaggedDatagramBytes] at hlen ⊢
    omega

def connectingSession : SessionOutgoing :=
  { encryptor := .initializeKey 0x1234
    nextNonce := 0
    peerNextExpectedNonce := 0
    peerNextExpectedSeqNum := 0
    nextSequenceNumber := 0
    shouldCompressSequenceNumbers := true
    handshake := some (.c2sConnectionRequest 0x1234)
    enablePadding := true }

theorem datagram_round_trip_connectingSession :
    (Builder.sendQueuedDatagram [0, 0] 0 1 7).Fits connectingSession (List.replicate 64 0) ∧
      ∃ flags : FlagsReader, flags.sequenceNumberBytes = 1 ∧
        SessionIncoming.openDatagram (fun _ seed => seed) ⟨false, .initializeKey 0x1234, .initial⟩
          ((Builder.sendQueuedDatagram [0, 0] 0 1 7).build (fun _ seed => seed) connectingSession
            (List.replicate 64 0) 0).2 =
          .ok (.opened ⟨flags, 0, (Handshake.c2sConnectionRequest 0x1234).wire, 0, 0, 7,
            (Builder.sendQueuedDatagram [0, 0] 0 1 7).messageSection connectingSession⟩) := by
  have hfits : (Builder.sendQueuedDatagram [0, 0] 0 1 7).Fits connectingSession
      (List.replicate 64 0) := ⟨by decide, by decide, by decide⟩
  obtain ⟨-, flags, -, -, -, hseq, -, -, hopen⟩ := datagram_round_trip (fun _ seed => seed)
    connectingSession ⟨false, .initializeKey 0x1234, .initial⟩ (.sendQueuedDatagram [0, 0] 0 1 7)
    (List.replicate 64 0) 0 hfits rfl rfl (by decide) (by decide)
  exact ⟨hfits, flags, hseq, hopen⟩

end Tonk.Session
