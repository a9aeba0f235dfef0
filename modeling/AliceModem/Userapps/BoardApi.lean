import AliceModem.Flash.ScratchPadLoss

namespace AliceModem.BoardApi

open Words Sectors ByteMemory Device SharedBlks Regions ConfigCopies ScratchPad ScratchPadMap ScratchPadFrame
  ScratchPadTokens ScratchPadKeep ScratchPadLoss

section

variable (g : Geometry) (info : FlashAddrInfo)

def sysScratchPadGet (m heap : Mem Byte) (tokenId : Mem Byte) (bufLen : Int) : Option (Int × List Byte) :=
  kerSysScratchPadGet g info m heap tokenId bufLen

/-- `buf` is the memory that `malloc` returns, `heap` and `heap'` are the memory
around the sector buffers of the two requests. -/
def sysScratchPadSet (f : Flash) (heap heap' : Mem Byte) (buf : Option (Mem Byte)) (tokenId tokBuf : Mem Byte)
    (bufLen : Int) : Option Int × Flash :=
  match buf with
  | none => kerSysScratchPadSet g info f heap' tokenId (some tokBuf) bufLen
  | some buf =>
      match kerSysScratchPadGet g info f.mem heap tokenId bufLen with
      | none => (none, f)
      | some (result, data) =>
          if 0 ≤ result ∧ readBytes (patch buf 0 data) 0 bufLen.toNat = readBytes tokBuf 0 bufLen.toNat then (some 0, f)
          else kerSysScratchPadSet g info f heap' tokenId (some tokBuf) bufLen

def Returned (m tokenId : Mem Byte) (n : Nat) (len : Int) : Prop :=
  ∀ (f : Flash) (heap heap' : Mem Byte) (buf : Option (Mem Byte)) (tokBuf : Mem Byte), f.mem = m →
    (sysScratchPadSet g info f heap heap' buf tokenId tokBuf n).1 = some 0 →
      ∀ heap'', sysScratchPadGet g info (sysScratchPadSet g info f heap heap' buf tokenId tokBuf n).2.mem heap'' tokenId len =
        some ((n : Int), readBytes tokBuf 0 n)

/-- A token that a search into `n` bytes finds has `n` bytes, whatever memory is around the
sector buffer, and a search may ask for `len` bytes. -/
def Whole (m tokenId : Mem Byte) (n : Nat) (len : Int) : Prop :=
  ∀ (heap : Mem Byte) (result : Int) (data : List Byte),
    kerSysScratchPadGet g info m heap tokenId n = some (result, data) → 0 ≤ result →
      result = n ∧ len < 8140 ∧ ∀ heap', kerSysScratchPadGet g info m heap' tokenId n = some (result, data)

end

structure Letters (chars : List Byte) : Prop where
  pos : 1 ≤ chars.length
  le : chars.length ≤ 15
  letter : ∀ c ∈ chars, 65 ≤ c ∧ c ≤ 90 ∨ 97 ≤ c ∧ c ≤ 122

theorem Letters.ne_nil {chars : List Byte} (h : Letters chars) : chars ≠ [] := List.length_pos_iff.mp h.pos

theorem Letters.first {chars : List Byte} (h : Letters chars) : 65 ≤ chars.headD 0 ∧ chars.headD 0 ≤ 122 := by
  obtain ⟨c, cs, rfl⟩ := List.exists_cons_of_ne_nil h.ne_nil
  rw [List.headD_cons]
  rcases h.letter c List.mem_cons_self with ⟨hl, hu⟩ | ⟨hl, hu⟩
  · exact ⟨hl, UInt8.le_trans hu (by decide)⟩
  · exact ⟨UInt8.le_trans (by decide) hl, hu⟩

section Search

variable {p : Mem Byte} {tokenId : List Byte} {bufLen bufLen' : Int} {fuel : Nat} {a usedLen result : Int} {data : List Byte}
  (h : getLoop 8192 p tokenId bufLen fuel a usedLen = some (result, data)) (hr : 0 ≤ result)

include h hr

theorem getLoop_bufLen (hle : result ≤ bufLen') : getLoop 8192 p tokenId bufLen' fuel a usedLen = some (result, data) := by
  induction fuel generalizing a usedLen with
  | zero => cases h
  | succ fuel ih =>
      rw [getLoop] at h ⊢
      split_ifs at h with hguard hname hshort
      · cases h
        exact absurd hr (by decide)
      · obtain ⟨rfl, -⟩ := Prod.mk.inj (Option.some.inj h)
        rw [if_pos hguard, if_pos hname, if_neg (by omega)]
        exact h
      · rw [if_pos hguard, if_neg hname]
        exact ih h
      · cases h
        exact absurd hr (by decide)

end Search

section Device

variable {g : Geometry} {info : FlashAddrInfo} (hlength : info.scratchPad.length = 8192)
  {m heap tokenId : Mem Byte} {n : Nat} {len : Int}

include hlength in
theorem get_bufLen {result : Int} {data : List Byte} (h : kerSysScratchPadGet g info m heap tokenId len = some (result, data))
    (hr : 0 ≤ result) {len' : Int} (hle : result ≤ len') (hu : len' < 8140) :
    kerSysScratchPadGet g info m heap tokenId len' = some (result, data) := by
  obtain ⟨hmagic, hfound⟩ := (get_found hlength h).resolve_left (by omega)
  rw [get_accepted hlength (by omega) hu hmagic]
  exact getLoop_bufLen hfound hr hle

theorem Returned.skipped (h : Returned g info m tokenId n len) {result : Int} {data : List Byte}
    (hget : kerSysScratchPadGet g info m heap tokenId n = some (result, data)) (hr : 0 ≤ result) (rest heap' : Mem Byte) :
    kerSysScratchPadGet g info m heap' tokenId len = some ((n : Int), readBytes (patch rest 0 data) 0 n) := by
  have hset : sysScratchPadSet g info (fresh m) heap heap (some rest) tokenId (patch rest 0 data) n = (some 0, fresh m) := by
    rw [sysScratchPadSet]
    dsimp only [fresh]
    rw [hget]
    exact if_pos ⟨hr, rfl⟩
  have hread := h (fresh m) heap heap (some rest) (patch rest 0 data) rfl (by rw [hset]) heap'
  rw [hset] at hread
  exact hread

include hlength

theorem Returned.whole (h : Returned g info m tokenId n len) (hlen : n ≤ len) (hlu : len < 2147483648) :
    Whole g info m tokenId n len := by
  intro heap result data hget hr
  obtain ⟨-, hle, hdata⟩ := (get_answer hlength hget).resolve_left (by omega)
  have hread := h.skipped hget hr
  have hall : result = n := by
    by_contra hne
    -- the byte behind the token is the one that `malloc` left there
    have hboth := ((hread (fun _ => 0) heap).symm.trans (hread (fun _ => 1) heap))
    rw [Option.some.injEq, Prod.mk.injEq] at hboth
    have hbyte := congrArg (List.getD · data.length default) hboth.2
    rw [getD_readBytes _ _ _ _ (by omega), getD_readBytes _ _ _ _ (by omega), patch_outside _ _ _ _ (by omega),
      patch_outside _ _ _ _ (by omega)] at hbyte
    cases hbyte
  obtain ⟨-, hu⟩ := get_bounds hlength (by omega) hlu (hread (fun _ => 0) heap)
  refine ⟨hall, hu, fun heap' => ?_⟩
  have hsame := hread (fun _ => 0) heap'
  rw [show n = data.length by omega, readBytes_patch, hdata] at hsame
  exact get_bufLen hlength hsame hr hle (by omega)

variable (hfit : info.scratchPad.Fits g)

include hfit

theorem Returned.get (h : Returned g info m tokenId n len) (hn : n < 8140) {buf q : Mem Byte}
    (hset : setBuf 8192 (pBuf g info m heap) (readBytes tokenId 0 16) (some buf) n = some (some q)) (heap' : Mem Byte) :
    kerSysScratchPadGet g info (written g info m q) heap' tokenId len = some ((n : Int), readBytes buf 0 n) := by
  obtain ⟨hok, -, hmem⟩ := stored_ok hfit hlength (f := fresh m) rfl hn hset
  have hread := h (fresh m) heap heap none buf rfl hok heap'
  rw [sysScratchPadSet, hmem] at hread
  exact hread

omit hlength hfit in
theorem set_cases {f : Flash} {heap' tokBuf : Mem Byte} {buf : Option (Mem Byte)}
    (h : (sysScratchPadSet g info f heap heap' buf tokenId tokBuf n).1 = some 0) :
    (∃ buf' result data, kerSysScratchPadGet g info f.mem heap tokenId n = some (result, data) ∧ 0 ≤ result ∧
      readBytes (patch buf' 0 data) 0 n = readBytes tokBuf 0 n ∧
      sysScratchPadSet g info f heap heap' buf tokenId tokBuf n = (some 0, f)) ∨
    sysScratchPadSet g info f heap heap' buf tokenId tokBuf n = kerSysScratchPadSet g info f heap' tokenId (some tokBuf) n := by
  cases buf with
  | none => exact .inr rfl
  | some buf =>
      rw [sysScratchPadSet] at h ⊢
      cases hget : kerSysScratchPadGet g info f.mem heap tokenId n with
      | none =>
          rw [hget] at h
          cases h
      | some found =>
          obtain ⟨result, data⟩ := found
          dsimp only
          split_ifs with hskip
          · exact .inl ⟨buf, result, data, rfl, hskip.1, hskip.2, rfl⟩
          · exact .inr rfl

omit hfit in
theorem Whole.get (h : Whole g info m tokenId n len) (hlen : n ≤ len) {buf tokBuf : Mem Byte} {result : Int} {data : List Byte}
    (hget : kerSysScratchPadGet g info m heap tokenId n = some (result, data)) (hr : 0 ≤ result)
    (heq : readBytes (patch buf 0 data) 0 n = readBytes tokBuf 0 n) (heap' : Mem Byte) :
    kerSysScratchPadGet g info m heap' tokenId len = some ((n : Int), readBytes tokBuf 0 n) := by
  obtain ⟨rfl, hu, hsame⟩ := h heap result data hget hr
  obtain ⟨-, -, hdata⟩ := (get_answer hlength hget).resolve_left (by omega)
  rw [show n = data.length by omega, readBytes_patch] at heq
  rw [get_bufLen hlength (hsame heap') hr hlen hu, heq, show data.length = n by omega]

/-- A store that returns zero can be read back if it was refused by the driver, or else if there was one
token to replace; and if a token found before, on which the store may be skipped, has all of the bytes. -/
theorem user_store_kept_iff {chars : List Byte} (hid : Points tokenId chars) (hletters : Letters chars)
    (hn : n < 2147483648) (hlen : n ≤ len) (hlu : len < 2147483648) :
    Returned g info m tokenId n len ↔ Whole g info m tokenId n len ∧
      (8140 ≤ n ∨ unused (padOf g info m) < n + 20 ∨
        (1 ≤ n ∧ len < 8140 ∧ Replaceable (padOf g info m) (readBytes tokenId 0 16) n)) := by
  constructor
  · intro h
    refine ⟨h.whole hlength hlen hlu, ?_⟩
    by_cases hbig : 8140 ≤ n
    · exact .inl hbig
    by_cases hroom : unused (padOf g info m) < n + 20
    · exact .inr (.inl hroom)
    right
    right
    exact replaceable_of_get hfit hlength (by omega) (by omega) (by omega) hlu
      fun _ _ hset => h.get hlength hfit (by omega) hset m
  · rintro ⟨hwhole, hcond⟩ f heap heap' buf tokBuf rfl hok heap''
    rcases set_cases hok with ⟨buf', result, data, hget, hr, heq, hset⟩ | hset
    · rw [hset]
      exact hwhole.get hlength hlen hget hr heq heap''
    · rw [hset] at hok ⊢
      obtain ⟨hsmall, hroom⟩ := set_room hfit hlength hn hok
      rcases hcond with hbig | hfull | ⟨hpos, hu, hone⟩
      · omega
      · omega
      · exact store_kept_named hfit hlength hid hletters.ne_nil hletters.le hletters.first hpos hn hone hok .start heap''
          hlen hu

end Device

def shortPad : Mem Byte := putAtEnd (fun _ => 0xff) 32 (readBytes letterName 0 16) (some fun _ => 7) (1 : Nat)

def shortFlash : Flash := fresh (written demoFlash demoInfo (fun _ => 0xff) shortPad)

theorem shortFlash_get {len : Int} (h1 : 1 ≤ len) (hu : len < 8140) :
    kerSysScratchPadGet demoFlash demoInfo shortFlash.mem (fun _ => 0xff) letterName len = some (1, [7]) := by
  have hpad : pBuf demoFlash demoInfo shortFlash.mem (fun _ => 0xff) = shortPad := pBuf_demo _ fun _ hi => putAtEnd_bounds hi
  have hone : kerSysScratchPadGet demoFlash demoInfo shortFlash.mem (fun _ => 0xff) letterName 1 = some (1, [7]) := by
    rw [demo_get hpad (by decide)]
    decide
  exact get_bufLen (by decide) hone (by decide) h1 hu

theorem longer_token_not_stored :
    let set := sysScratchPadSet demoFlash demoInfo shortFlash (fun _ => 0xff) (fun _ => 0xff) (some fun _ => 9) letterName
      (patch (fun _ => 9) 0 [7]) (2 : Nat)
    set.1 = some 0 ∧ sysScratchPadGet demoFlash demoInfo set.2.mem (fun _ => 0xff) letterName 2 = some (1, [7]) ∧
      readBytes (patch (fun _ => 9) 0 [7]) 0 2 = ([7, 9] : List Byte) := by
  have hset : sysScratchPadSet demoFlash demoInfo shortFlash (fun _ => 0xff) (fun _ => 0xff) (some fun _ => 9) letterName
      (patch (fun _ => 9) 0 [7]) (2 : Nat) = (some 0, shortFlash) := by
    rw [sysScratchPadSet, shortFlash_get (by decide) (by decide)]
    exact if_pos (by decide)
  dsimp only
  rw [hset]
  exact ⟨rfl, shortFlash_get (by decide) (by decide), by decide⟩

theorem twoTokens_get (heap : Mem Byte) : kerSysScratchPadGet demoFlash demoInfo (deviceWith (twoTokens 0xff)) heap
    letterName (5 : Nat) = some (5, [1, 2, 3, 4, 5]) := by
  have hpacked : Packed (pBuf demoFlash demoInfo (deviceWith (twoTokens 0xff)) heap) [firstToken, otherToken] 0xff := by
    refine (twoTokens_packed (.inr rfl)).congr fun i h1 h2 => ?_
    rw [pBuf_window demoInfo_fits (by decide) _ _ h1 h2, deviceWith, padOf_view]
  rw [get_accepted (by decide) (by decide) (by decide) hpacked.magic]
  have hid : IsName letterName demoName := by decide
  exact (Packed.finds hid (show Packed _ ([] ++ firstToken :: [otherToken]) _ from hpacked) rfl).get 5

theorem twoTokens_returned : Returned demoFlash demoInfo (deviceWith (twoTokens 0xff)) letterName 5 16 := by
  have hwhole : Whole demoFlash demoInfo (deviceWith (twoTokens 0xff)) letterName 5 16 := by
    intro heap result data hget _
    rw [twoTokens_get, Option.some.injEq, Prod.mk.injEq] at hget
    obtain ⟨rfl, rfl⟩ := hget
    exact ⟨rfl, by decide, twoTokens_get⟩
  have hletters : Letters [65] :=
    ⟨le_rfl, by decide, fun c hc => .inl (by rw [List.mem_singleton.mp hc]; decide)⟩
  exact (user_store_kept_iff (by decide) demoInfo_fits letterName_points hletters (by decide) (by decide) (by decide)).mpr
    ⟨hwhole, .inr (.inr ⟨by decide, by decide, twoTokens_replaceable 5⟩)⟩

end AliceModem.BoardApi
