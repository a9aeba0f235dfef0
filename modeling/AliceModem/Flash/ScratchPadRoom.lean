import AliceModem.Flash.ScratchPadLoss

namespace AliceModem.ScratchPadRoom

open Words Sectors ByteMemory Device SharedBlks Regions BigEndian ConfigCopies ScratchPad ScratchPadMap ScratchPadFrame
  ScratchPadTokens ScratchPadKeep ScratchPadLoss

/-- A header, tokens of different names one behind the other, and nothing that looks like another one. -/
structure WellFormed (p : Mem Byte) (ts : List Token) : Prop where
  magic : readBytes p 0 8 = magicNumber
  stored : Stored p 32 ts
  nodup : (ts.map Token.name).Nodup
  fits : endOf 32 ts ≤ 8192
  stop : endOf 32 ts + 20 ≤ 8192 → ¬ Listed p (endOf 32 ts)

/-- The size of the pad that a call should leave. -/
def needed (ts : List Token) (nm : TokenName) (tokBuf : Option (Mem Byte)) (bufLen : Int) : Int :=
  endOf 32 (ts.filter fun t => t.name ≠ nm) + if tokBuf.isSome then 20 + bufLen else 0

section

variable {p q : Mem Byte} {ts : List Token}

theorem WellFormed.congr (h : WellFormed p ts) (hq : ∀ i, 0 ≤ i → i < 8192 → q i = p i) : WellFormed q ts := by
  have hfits := h.fits
  have hlow := le_endOf 32 ts
  refine ⟨?_, ?_, h.nodup, hfits, fun hroom hl => h.stop hroom (hl.congr ?_ (by omega))⟩
  · rw [← h.magic]
    exact readBytes_congr fun i hi => hq _ (by omega) (by omega)
  · exact stored_congr (fun i h1 h2 => hq i (by omega) (by omega)) h.stored
  · exact readBytes_congr fun i hi => (hq _ (by omega) (by omega)).symm

theorem wellFormed_of_packed {c : Byte} (h : Packed p ts c) : WellFormed p ts :=
  ⟨h.magic, h.stored, h.nodup, h.fits, fun _ => h.stop⟩

theorem WellFormed.used (h : WellFormed p ts) : ∃ cs b, Chain p 32 cs b ∧ ¬ Listed p b ∧ endOf 32 ts ≤ b ∧
    (endOf 32 ts + 20 ≤ 8192 → b = endOf 32 ts) := by
  have hcs := stored_chain h.stored h.fits
  by_cases hroom : endOf 32 ts + 20 ≤ 8192
  · exact ⟨_, _, hcs, h.stop hroom, le_rfl, fun _ => rfl⟩
  · have hlow := le_endOf 32 ts
    obtain ⟨b, hb, hstop⟩ := chain_tokensFrom (p := p) (a := endOf 32 ts) 8192 (by omega)
    have := hb.le
    exact ⟨_, b, chain_append.mpr ⟨_, hcs, hb⟩, hstop, by omega, fun h => absurd h hroom⟩

theorem setBuf_refused_iff (h : WellFormed p ts) (id : List Byte) (tokBuf : Option (Mem Byte)) {bufLen : Int}
    (hl : 0 ≤ bufLen) :
    setBuf 8192 p id tokBuf bufLen = some none ∧ 8192 < endOf 32 ts + bufLen + 20 ∨
    (∃ q, setBuf 8192 p id tokBuf bufLen = some (some q)) ∧ endOf 32 ts + bufLen + 20 ≤ 8192 := by
  obtain ⟨cs, b, hchain, hstop, hle, hroom⟩ := h.used
  rw [setBuf_chain h.magic hchain hstop]
  split_ifs with hover
  · exact .inl ⟨rfl, by omega⟩
  · exact .inr ⟨⟨_, rfl⟩, by omega⟩

end

section Device

variable {g : Geometry} {info : FlashAddrInfo} (hfit : info.scratchPad.Fits g)
  (hlength : info.scratchPad.length = 8192) {f : Flash} (hf : f.faults = []) {ts : List Token}
  (h : WellFormed (padOf g info f.mem) ts)

include hfit hlength hf h

theorem set_refused_iff (heap tokenId : Mem Byte) (tokBuf : Option (Mem Byte)) {bufLen : Int}
    (hl : -2147483648 ≤ bufLen) (hu : bufLen < 2147483648) :
    (kerSysScratchPadSet g info f heap tokenId tokBuf bufLen).1 = some (-1) ↔
      ¬ (0 ≤ bufLen ∧ bufLen < 8140 ∧ endOf 32 ts + bufLen + 20 ≤ 8192) := by
  by_cases hlen : exceedsPad 8192 bufLen
  · have hrange := mt (exceedsPad_iff hl hu).mpr (not_not.mpr hlen)
    rw [kerSysScratchPadSet, hlength, if_neg (by decide), if_pos hlen]
    exact iff_of_true rfl fun hc => hrange ⟨hc.1, hc.2.1⟩
  · obtain ⟨h0, h1⟩ := (exceedsPad_iff hl hu).mp hlen
    have hbuf := h.congr fun i h1 h2 => pBuf_window hfit hlength f.mem heap h1 h2
    obtain ⟨hfail, hdone⟩ := kerSysScratchPadSet_eq hfit hlength f hf heap tokenId tokBuf hlen
    rcases setBuf_refused_iff hbuf (readBytes tokenId 0 16) tokBuf h0 with ⟨hset, hfull⟩ | ⟨⟨q, hset⟩, hroom⟩
    · rw [hfail hset]
      exact iff_of_true rfl (by omega)
    · rw [(hdone q hset).1]
      exact iff_of_false (by decide) (not_not.mpr ⟨h0, h1, hroom⟩)

/-- A pad is reported full only when it is, except that the check is made as if the call always
added a token. -/
theorem full_when_exceeded_iff (nm : TokenName) (heap tokenId : Mem Byte) (tokBuf : Option (Mem Byte)) {bufLen : Int}
    (hl : -2147483648 ≤ bufLen) (hu : bufLen < 2147483648) :
    ((kerSysScratchPadSet g info f heap tokenId tokBuf bufLen).1 = some (-1) → 8192 < needed ts nm tokBuf bufLen) ↔
      (0 ≤ bufLen ∧ bufLen < 8140 ∧ endOf 32 ts + bufLen + 20 ≤ 8192) ∨ 8192 < needed ts nm tokBuf bufLen := by
  rw [set_refused_iff hfit hlength hf h heap tokenId tokBuf hl hu, imp_iff_not_or, not_not]

end Device

section Demo

variable {n : Nat} (hpos : 1 ≤ n) (hn : n < 8140)

def sevens : Token := ⟨demoName, readBytes (fun _ => 7) 0 n, by rwa [length_readBytes], by rwa [length_readBytes]⟩

theorem sevens_length : (sevens hpos hn).data.length = n := by rw [sevens, length_readBytes]

theorem sevens_end : endOf 32 [sevens hpos hn] = 52 + ((n : Int) + 3) / 4 * 4 := by
  rw [endOf_cons, endOf_nil, Token.span, sevens_length]
  omega

theorem first_stored :
    let first := kerSysScratchPadSet demoFlash demoInfo (fresh fun _ => 0xff) (fun _ => 0xff) letterName
      (some fun _ => 7) n
    first.1 = some 0 ∧ first.2.faults = [] ∧ WellFormed (padOf demoFlash demoInfo first.2.mem) [sevens hpos hn] := by
  have hset (p : Mem Byte) (hp : ∀ i, 0 ≤ i → i < 8192 → p i = padOf demoFlash demoInfo (fresh fun _ => 0xff).mem i) :
      Leaves p letterName (some fun _ => 7) n [sevens hpos hn] := by
    have hdata : readBytes (fun _ => 7) 0 (sevens hpos hn).data.length = (sevens hpos hn).data := by
      rw [sevens_length]
      rfl
    have hfirst := setBuf_first (show IsName letterName demoName by decide) hdata (c := 0xff) (.inr rfl) hp
    rwa [sevens_length] at hfirst
  obtain ⟨hok, hfaults, c, hpacked⟩ := leaves_step demoInfo_fits (by decide) rfl (fun _ => 0xff) letterName _ hn hset
  exact ⟨hok, hfaults, wellFormed_of_packed hpacked⟩

theorem second_store_refused (hhalf : 8192 < 52 + ((n : Int) + 3) / 4 * 4 + n + 20) :
    let first := kerSysScratchPadSet demoFlash demoInfo (fresh fun _ => 0xff) (fun _ => 0xff) letterName
      (some fun _ => 7) n
    first.1 = some 0 ∧ WellFormed (padOf demoFlash demoInfo first.2.mem) [sevens hpos hn] ∧
    needed [sevens hpos hn] demoName (some fun _ => 7) n = 52 + n ∧
    (kerSysScratchPadSet demoFlash demoInfo first.2 (fun _ => 0xff) letterName (some fun _ => 7) n).1 = some (-1) := by
  obtain ⟨hok, hfaults, hpad⟩ := first_stored hpos hn
  intro first
  refine ⟨hok, hpad, ?_, ?_⟩
  · have hgone : ([sevens hpos hn].filter fun t => t.name ≠ demoName) = [] := by simp [sevens]
    rw [needed, hgone, endOf_nil, Option.isSome_some, if_pos rfl]
    omega
  · rw [set_refused_iff demoInfo_fits (by decide) hfaults hpad _ _ _ (by omega) (by omega), sevens_end]
    omega

end Demo

theorem other_store_refused :
    let first := kerSysScratchPadSet demoFlash demoInfo (fresh fun _ => 0xff) (fun _ => 0xff) letterName
      (some fun _ => 7) (4096 : Nat)
    let token : Token := sevens (n := 4096) (by decide) (by decide)
    (kerSysScratchPadSet demoFlash demoInfo first.2 (fun _ => 0xff) (cString [66, 48]) (some fun _ => 7)
      (4096 : Nat)).1 = some (-1) ∧
    ((kerSysScratchPadSet demoFlash demoInfo first.2 (fun _ => 0xff) (cString [66, 48]) (some fun _ => 7)
      (4096 : Nat)).1 = some (-1) → 8192 < needed [token] otherName (some fun _ => 7) (4096 : Nat)) := by
  obtain ⟨-, hfaults, hpad⟩ := first_stored (n := 4096) (by decide) (by decide)
  have hend := sevens_end (n := 4096) (by decide) (by decide)
  have hkept : ([sevens (n := 4096) (by decide) (by decide)].filter fun t => t.name ≠ otherName) =
      [sevens (n := 4096) (by decide) (by decide)] := by
    have hne : demoName ≠ otherName := by decide
    simp [sevens, hne]
  dsimp only at hfaults hpad ⊢
  -- the token's data are 4096 bytes, which are not to be computed
  generalize (kerSysScratchPadSet demoFlash demoInfo (fresh fun _ => 0xff) _ letterName _ _).2 = f at *
  generalize sevens (n := 4096) _ _ = token at *
  constructor
  · rw [set_refused_iff demoInfo_fits (by decide) hfaults hpad _ _ _ (by decide) (by decide), hend]
    decide
  · refine (full_when_exceeded_iff demoInfo_fits (by decide) hfaults hpad otherName _ _ _ (by decide) (by decide)).mpr
      (.inr ?_)
    rw [needed, hkept, hend, Option.isSome_some, if_pos rfl]
    decide

theorem overwrite_refused :
    let first := kerSysScratchPadSet demoFlash demoInfo (fresh fun _ => 0xff) (fun _ => 0xff) letterName
      (some fun _ => 7) (4096 : Nat)
    let token : Token := sevens (n := 4096) (by decide) (by decide)
    first.1 = some 0 ∧ WellFormed (padOf demoFlash demoInfo first.2.mem) [token] ∧
    needed [token] demoName (some fun _ => 7) (4096 : Nat) = 52 + (4096 : Nat) ∧
    (kerSysScratchPadSet demoFlash demoInfo first.2 (fun _ => 0xff) letterName (some fun _ => 7)
      (4096 : Nat)).1 = some (-1) :=
  second_store_refused (by decide) (by decide) (by decide)

end AliceModem.ScratchPadRoom
