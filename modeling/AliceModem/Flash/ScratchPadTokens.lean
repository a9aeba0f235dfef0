import AliceModem.Flash.ScratchPad

namespace AliceModem.ScratchPadTokens

open Words Sectors ByteMemory Device SharedBlks Regions BigEndian ScratchPad

section

variable (p : Mem Byte)

/-- The token at `a` is one that the first loop of `kerSysScratchPadSet` passes. -/
def Listed (a : Int) : Prop :=
  65 ≤ p a ∧ p a ≤ 122 ∧ 0 ∈ tokenName p a ∧ 0 < tokenLen p a ∧ tokenLen p a < 8192 ∧ a < 8192

instance (a : Int) : Decidable (Listed p a) := inferInstanceAs (Decidable (_ ∧ _))

def tokenSpan (a : Int) : Int := spTokenSize + skipLen p a

def tokensFrom : Nat → Int → List Int
  | 0, _ => []
  | fuel + 1, a => if Listed p a then a :: tokensFrom fuel (a + tokenSpan p a) else []

def tokens : List Int := tokensFrom p 8192 32

/-- The tokens at `cs` stand one behind the other from `a` to `b`. -/
def Chain : Int → List Int → Int → Prop
  | a, [], b => a = b
  | a, c :: cs, b => c = a ∧ Listed p a ∧ Chain (a + tokenSpan p a) cs b

end

def named (p : Mem Byte) (tokenId : List Byte) (a : Int) : Bool := sameName (tokenName p a) tokenId

variable {p q : Mem Byte} {a b c d : Int} {cs ds : List Int} {tokenId : List Byte}

section Head

theorem tokenName_eq (p : Mem Byte) (a : Int) : tokenName p a = (readBytes p a 20).take 16 :=
  (take_readBytes p a (by decide)).symm

theorem tokenLen_eq (p : Mem Byte) (a : Int) : tokenLen p a = int32 (be32 ((readBytes p a 20).drop 16)) := by
  rw [drop_readBytes p a (by decide)]
  rfl

variable (h : readBytes q b 20 = readBytes p a 20)

include h

theorem tokenName_congr : tokenName q b = tokenName p a := by rw [tokenName_eq, h, ← tokenName_eq]

theorem tokenLen_congr : tokenLen q b = tokenLen p a := by rw [tokenLen_eq, h, ← tokenLen_eq]

theorem tokenSpan_congr : tokenSpan q b = tokenSpan p a := by
  rw [tokenSpan, tokenSpan, skipLen, skipLen, tokenLen_congr h]

theorem named_congr : named q tokenId b = named p tokenId a := by rw [named, named, tokenName_congr h]

theorem Listed.congr (hb : b < 8192) (hl : Listed p a) : Listed q b := by
  obtain ⟨h1, h2, h3, h4, h5, -⟩ := hl
  have hfirst : q b = p a := by rw [← headD_readBytes q b 19 0, h, headD_readBytes]
  rw [Listed, hfirst, tokenName_congr h, tokenLen_congr h]
  exact ⟨h1, h2, h3, h4, h5, hb⟩

end Head

theorem Listed.span (h : Listed p a) : 20 + tokenLen p a ≤ tokenSpan p a ∧ 24 ≤ tokenSpan p a := by
  obtain ⟨-, -, -, hpos, hlt, -⟩ := h
  have hskip := skipLen_bounds hpos hlt
  rw [tokenSpan]
  exact ⟨by simp only [spTokenSize]; omega, hskip.2⟩

section Chain

theorem Chain.le (h : Chain p a cs b) : a + 24 * cs.length ≤ b := by
  induction cs generalizing a with
  | nil =>
      cases h
      simp
  | cons c cs ih =>
      obtain ⟨-, hl, h⟩ := h
      have := hl.span.2
      have := ih h
      rw [List.length_cons]
      push_cast
      omega

theorem Chain.mod (h : Chain p a cs b) (ha : a % 4 = 0) : b % 4 = 0 := by
  induction cs generalizing a with
  | nil =>
      cases h
      exact ha
  | cons c cs ih =>
      refine ih h.2.2 ?_
      rw [tokenSpan, skipLen, spTokenSize]
      omega

theorem chain_append : Chain p a (cs ++ ds) b ↔ ∃ m, Chain p a cs m ∧ Chain p m ds b := by
  induction cs generalizing a with
  | nil => simp [Chain]
  | cons c cs ih =>
      simp only [List.cons_append, Chain, ih]
      grind

theorem Chain.shift (d : Int) (hd : d ≤ 0) (h : Chain p a cs b)
    (hhead : ∀ x ∈ cs, readBytes q (x + d) 20 = readBytes p x 20) :
    Chain q (a + d) (cs.map (· + d)) (b + d) := by
  induction cs generalizing a with
  | nil =>
      cases h
      rfl
  | cons c cs ih =>
      obtain ⟨rfl, hl, h⟩ := h
      have hc := hhead c List.mem_cons_self
      refine ⟨rfl, hl.congr hc (by have := hl.2.2.2.2.2; omega), ?_⟩
      rw [tokenSpan_congr hc, show c + d + tokenSpan p c = c + tokenSpan p c + d by omega]
      exact ih h fun x hx => hhead x (List.mem_cons_of_mem _ hx)

theorem Chain.congr (h : Chain p a cs b) (hhead : ∀ x ∈ cs, readBytes q x 20 = readBytes p x 20) : Chain q a cs b := by
  simpa using h.shift 0 le_rfl (by simpa using hhead)

theorem Chain.mem (h : Chain p a cs b) {x : Int} (hx : x ∈ cs) : a ≤ x ∧ Listed p x ∧ x + tokenSpan p x ≤ b := by
  obtain ⟨pre, post, rfl⟩ := List.append_of_mem hx
  obtain ⟨m, hpre, rfl, hl, hpost⟩ := chain_append.mp h
  have := hpre.le
  have := hpost.le
  exact ⟨by omega, hl, by omega⟩

theorem Chain.start (h : Chain p a cs c) (hc : Listed p c) (h' : Chain p a ds b) (hb : ¬ Listed p b) :
    ∃ es, ds = cs ++ c :: es := by
  induction cs generalizing a ds with
  | nil =>
      cases h
      cases ds with
      | nil =>
          cases h'
          exact absurd hc hb
      | cons x ds =>
          obtain ⟨rfl, -, -⟩ := h'
          exact ⟨ds, rfl⟩
  | cons x cs ih =>
      obtain ⟨rfl, hx, h⟩ := h
      cases ds with
      | nil =>
          cases h'
          exact absurd hx hb
      | cons y ds =>
          obtain ⟨rfl, -, h'⟩ := h'
          obtain ⟨es, rfl⟩ := ih h h'
          exact ⟨es, rfl⟩

theorem Chain.unique (h : Chain p a cs b) (hb : ¬ Listed p b) (h' : Chain p a ds c) (hc : ¬ Listed p c) :
    cs = ds ∧ b = c := by
  induction cs generalizing a ds with
  | nil =>
      cases h
      cases ds with
      | nil => exact ⟨rfl, h'⟩
      | cons x ds => exact absurd h'.2.1 hb
  | cons x cs ih =>
      obtain ⟨rfl, hx, h⟩ := h
      cases ds with
      | nil =>
          cases h'
          exact absurd hx hc
      | cons y ds =>
          obtain ⟨rfl, -, h'⟩ := h'
          obtain ⟨rfl, rfl⟩ := ih h h'
          exact ⟨rfl, rfl⟩

theorem chain_tokensFrom (fuel : Nat) (ha : 8192 < a + 24 * fuel) :
    ∃ b, Chain p a (tokensFrom p fuel a) b ∧ ¬ Listed p b := by
  induction fuel generalizing a with
  | zero => exact ⟨a, rfl, fun h => by have := h.2.2.2.2.2; omega⟩
  | succ fuel ih =>
      rw [tokensFrom]
      split_ifs with hl
      · have := hl.span.2
        push_cast at ha
        obtain ⟨b, hb, hstop⟩ := ih (a := a + tokenSpan p a) (by omega)
        exact ⟨b, ⟨rfl, hl, hb⟩, hstop⟩
      · exact ⟨a, rfl, hl⟩

theorem Chain.window (h : Chain p 32 cs b) (hb : ¬ Listed p b) (hroom : b + 20 ≤ 8192)
    (hq : ∀ i, 0 ≤ i → i < 8192 → q i = p i) :
    Chain q 32 cs b ∧ ¬ Listed q b ∧ ∀ x ∈ cs, readBytes q x 20 = readBytes p x 20 := by
  have hhead (x : Int) (hx : 32 ≤ x) (hxb : x ≤ b) : readBytes q x 20 = readBytes p x 20 :=
    readBytes_congr fun i hi => hq _ (by omega) (by omega)
  have hlow := h.le
  have hcs (x : Int) (hx : x ∈ cs) : readBytes q x 20 = readBytes p x 20 := by
    obtain ⟨h1, h2, h3⟩ := h.mem hx
    have := h2.span
    exact hhead x h1 (by omega)
  exact ⟨h.congr hcs, fun hl => hb (hl.congr (hhead b (by omega) le_rfl).symm (by omega)), hcs⟩

theorem tokens_eq (h : Chain p 32 cs b) (hb : ¬ Listed p b) : tokens p = cs := by
  obtain ⟨c, hc, hstop⟩ := chain_tokensFrom (p := p) (a := 32) 8192 (by decide)
  exact (hc.unique hstop h hb).1

end Chain

section Loops

theorem usedLoop_chain (h : Chain p a cs b) (hb : ¬ Listed p b) {fuel : Nat} (hfuel : cs.length < fuel) :
    usedLoop 8192 p fuel a = some b := by
  induction cs generalizing a fuel with
  | nil =>
      obtain ⟨fuel, rfl⟩ := Nat.exists_eq_add_of_lt hfuel
      cases h
      rw [usedLoop]
      exact if_neg hb
  | cons c cs ih =>
      obtain ⟨fuel, rfl⟩ := Nat.exists_eq_add_of_lt hfuel
      obtain ⟨rfl, hl, h⟩ := h
      rw [usedLoop]
      refine (if_pos hl).trans ?_
      rw [add_assoc]
      exact ih h (by simp; omega)

theorem findLoop_chain (tokenId : List Byte) (h : Chain p a cs b) {fuel : Nat} (hfuel : cs.length < fuel) :
    findLoop p tokenId b fuel a = some (cs.find? (named p tokenId)) := by
  induction cs generalizing a fuel with
  | nil =>
      obtain ⟨fuel, rfl⟩ := Nat.exists_eq_add_of_lt hfuel
      cases h
      rw [findLoop, if_neg (lt_irrefl _)]
      rfl
  | cons c cs ih =>
      obtain ⟨fuel, rfl⟩ := Nat.exists_eq_add_of_lt hfuel
      obtain ⟨rfl, hl, h⟩ := h
      have hspan := hl.span.2
      have hle := h.le
      rw [findLoop, if_pos (by omega), List.find?_cons, named]
      split_ifs with hname
      · rw [hname]
      · rw [Bool.eq_false_iff.mpr hname, add_assoc]
        exact ih h (by simp; omega)

theorem getLoop_chain (h : Chain p a cs b) (hcs : ∀ x ∈ cs, named p tokenId x = false) (bufLen : Int) {usedLen : Int}
    (hused : usedLen ≤ a) (fuel : Nat) :
    getLoop 8192 p tokenId bufLen (cs.length + fuel) a usedLen =
      getLoop 8192 p tokenId bufLen fuel b (usedLen + (b - a) - 20 * cs.length) := by
  induction cs generalizing a usedLen with
  | nil =>
      cases h
      simp
  | cons c cs ih =>
      obtain ⟨rfl, hl, h⟩ := h
      obtain ⟨h1, -, -, hpos, hlt, ha⟩ := hl
      have hne : p c ≠ 0 := fun h0 => by
        rw [h0] at h1
        exact absurd h1 (by decide)
      have hname := hcs c List.mem_cons_self
      rw [named] at hname
      have hnext : usedLen + skipLen p c ≤ c + tokenSpan p c := by
        rw [tokenSpan]
        simp only [spTokenSize]
        omega
      have hrest := ih h (fun x hx => hcs x (List.mem_cons_of_mem _ hx)) hnext
      rw [List.length_cons, Nat.add_right_comm, getLoop, if_pos ⟨hne, hpos, hlt, by omega⟩, hname, if_neg (by decide),
        add_assoc]
      rw [tokenSpan] at hrest
      rw [hrest]
      congr 1
      push_cast [spTokenSize]
      ring

end Loops

section Edit

/-- A token of that name is at `curLen`: it is overwritten if its length is right,
and otherwise given up. -/
def rewriteToken (p : Mem Byte) (usedLen curLen : Int) (tokenId : List Byte) (tokBuf : Option (Mem Byte))
    (bufLen : Int) : Mem Byte :=
  match tokBuf with
  | some buf =>
      if tokenLen p curLen = bufLen then patch p (curLen + 20) (readBytes buf 0 bufLen.toNat)
      else putAtEnd (shiftOut 8192 p usedLen curLen) (usedLen - tokenSpan p curLen) tokenId tokBuf bufLen
  | none => putAtEnd (shiftOut 8192 p usedLen curLen) (usedLen - tokenSpan p curLen) tokenId tokBuf bufLen

theorem Chain.length_lt (h : Chain p 32 ds b) : ds.length < 8192 := by
  rcases List.eq_nil_or_concat' ds with rfl | ⟨cs, x, rfl⟩
  · decide
  · obtain ⟨m, hcs, hx⟩ := chain_append.mp h
    have := hcs.le
    have := hx.2.1.2.2.2.2.2
    obtain ⟨rfl, -⟩ := hx
    rw [List.length_append, List.length_singleton]
    omega

theorem setBuf_chain (hmagic : readBytes p 0 8 = magicNumber) (h : Chain p 32 ds b) (hb : ¬ Listed p b)
    (tokenId : List Byte) (tokBuf : Option (Mem Byte)) (bufLen : Int) :
    setBuf 8192 p tokenId tokBuf bufLen = some (if 8192 < b + bufLen + 20 then none else some (
      match ds.find? (named p tokenId) with
      | none => putAtEnd p b tokenId tokBuf bufLen
      | some cur => rewriteToken p b cur tokenId tokBuf bufLen)) := by
  have hused := usedLoop_chain h hb h.length_lt
  have hfind := findLoop_chain tokenId h h.length_lt
  rw [setBuf, if_neg (not_not.mpr hmagic)]
  simp only [spHeaderSize, spTokenSize, toNat_pad, hused, hfind, Option.bind_some, Option.map_some]
  split_ifs with hover
  · rfl
  · cases ds.find? (named p tokenId) with
    | none => rfl
    | some cur =>
        cases tokBuf with
        | none => rfl
        | some buf =>
            dsimp only [rewriteToken]
            split_ifs <;> rfl

theorem setBuf_new (hmagic : readBytes p 0 8 ≠ magicNumber) (tokenId : List Byte) (buf : Mem Byte) (bufLen : Int) :
    setBuf 8192 p tokenId (some buf) bufLen = some (some (putAtEnd p 32 tokenId (some buf) bufLen)) := by
  have htoken := length_spToken tokenId bufLen
  rw [setBuf, if_pos hmagic, putAtEnd]
  simp only [spHeaderSize, spTokenSize, Option.some.injEq]
  rw [patch_comm p (show (0 : Int) + spHead.length ≤ 32 by decide),
    patch_comm _ (show (0 : Int) + spHead.length ≤ 32 + 20 by decide)]

theorem magic_spHead (p : Mem Byte) : readBytes (patch p 0 spHead) 0 8 = magicNumber := by
  rw [← take_readBytes _ _ (n := spHead.length) (by decide), readBytes_patch]
  rfl

theorem putAtEnd_magic (p : Mem Byte) (usedLen : Int) (tokenId : List Byte) (tokBuf : Option (Mem Byte))
    (bufLen : Int) : readBytes (putAtEnd p usedLen tokenId tokBuf bufLen) 0 8 = magicNumber := by
  cases tokBuf with
  | none => exact magic_spHead _
  | some buf => exact magic_spHead _

theorem putAtEnd_below (p : Mem Byte) {usedLen : Int} (tokenId : List Byte) (tokBuf : Option (Mem Byte))
    (bufLen : Int) {i : Int} (hl : 32 ≤ i) (hu : i < usedLen) : putAtEnd p usedLen tokenId tokBuf bufLen i = p i := by
  have hhead (q : Mem Byte) : patch q 0 spHead i = q i := patch_outside _ _ _ _ (.inr hl)
  cases tokBuf with
  | none => exact hhead _
  | some buf =>
      rw [putAtEnd, hhead, patch_outside _ _ _ _ (.inl (by simp only [spTokenSize]; omega)),
        patch_outside _ _ _ _ (.inl hu)]

theorem rewriteToken_cases (p : Mem Byte) (usedLen curLen : Int) (tokenId : List Byte) (tokBuf : Option (Mem Byte))
    (bufLen : Int) :
    (∃ buf, tokBuf = some buf ∧ tokenLen p curLen = bufLen ∧ rewriteToken p usedLen curLen tokenId tokBuf bufLen =
      patch p (curLen + 20) (readBytes buf 0 bufLen.toNat)) ∨
    (tokBuf.isSome → tokenLen p curLen ≠ bufLen) ∧ rewriteToken p usedLen curLen tokenId tokBuf bufLen =
      putAtEnd (shiftOut 8192 p usedLen curLen) (usedLen - tokenSpan p curLen) tokenId tokBuf bufLen := by
  cases tokBuf with
  | none => exact .inr ⟨nofun, rfl⟩
  | some buf =>
      by_cases hlen : tokenLen p curLen = bufLen
      · exact .inl ⟨buf, rfl, hlen, by rw [rewriteToken, if_pos hlen]⟩
      · exact .inr ⟨fun _ => hlen, by rw [rewriteToken, if_neg hlen]⟩

variable {usedLen curLen bufLen : Int} {tokBuf : Option (Mem Byte)}

theorem moved_below (hend : curLen + tokenSpan p curLen ≤ usedLen) {i : Int} (hl : 32 ≤ i) (hu : i < curLen) :
    putAtEnd (shiftOut 8192 p usedLen curLen) (usedLen - tokenSpan p curLen) tokenId tokBuf bufLen i = p i := by
  rw [putAtEnd_below _ _ _ _ hl (by omega)]
  exact shiftOut_kept p rfl hend hu

theorem moved_above {i : Int} (hcur : 32 ≤ curLen) (hl : curLen ≤ i) (hu : i + tokenSpan p curLen < usedLen) :
    putAtEnd (shiftOut 8192 p usedLen curLen) (usedLen - tokenSpan p curLen) tokenId tokBuf bufLen i =
      p (i + tokenSpan p curLen) := by
  rw [putAtEnd_below _ _ _ _ (by omega) (by omega)]
  exact shiftOut_moved p rfl hl hu

theorem rewriteToken_below (hend : curLen + tokenSpan p curLen ≤ usedLen) {i : Int}
    (hl : 32 ≤ i) (hu : i < curLen) : rewriteToken p usedLen curLen tokenId tokBuf bufLen i = p i := by
  rcases rewriteToken_cases p usedLen curLen tokenId tokBuf bufLen with ⟨buf, -, -, h⟩ | ⟨-, h⟩ <;> rw [h]
  · exact patch_outside _ _ _ _ (.inl (by omega))
  · exact moved_below hend hl hu

theorem rewriteToken_magic (hmagic : readBytes p 0 8 = magicNumber) (hcur : 32 ≤ curLen) :
    readBytes (rewriteToken p usedLen curLen tokenId tokBuf bufLen) 0 8 = magicNumber := by
  rcases rewriteToken_cases p usedLen curLen tokenId tokBuf bufLen with ⟨buf, -, -, h⟩ | ⟨-, h⟩ <;> rw [h]
  · rw [readBytes_patch_disjoint _ _ _ _ _ (.inl (by omega))]
    exact hmagic
  · exact putAtEnd_magic _ _ _ _ _

variable (tokenId tokBuf bufLen) in
theorem chain_moved {pre post : List Int} (h : Chain p 32 (pre ++ curLen :: post) usedLen) :
    Chain (putAtEnd (shiftOut 8192 p usedLen curLen) (usedLen - tokenSpan p curLen) tokenId tokBuf bufLen) 32
      (pre ++ post.map (· + -tokenSpan p curLen)) (usedLen - tokenSpan p curLen) ∧
    (∀ x ∈ pre, readBytes (putAtEnd (shiftOut 8192 p usedLen curLen) (usedLen - tokenSpan p curLen) tokenId tokBuf
      bufLen) x 20 = readBytes p x 20) ∧
    ∀ x ∈ post, readBytes (putAtEnd (shiftOut 8192 p usedLen curLen) (usedLen - tokenSpan p curLen) tokenId tokBuf
      bufLen) (x + -tokenSpan p curLen) 20 = readBytes p x 20 := by
  obtain ⟨m, hpre, rfl, hl, hpost⟩ := chain_append.mp h
  have hlow := hpre.le
  have hspan := hl.span
  have hend := hpost.le
  have hbelow (x : Int) (hx : x ∈ pre) : readBytes (putAtEnd (shiftOut 8192 p usedLen curLen)
      (usedLen - tokenSpan p curLen) tokenId tokBuf bufLen) x 20 = readBytes p x 20 := by
    obtain ⟨h1, h2, h3⟩ := hpre.mem hx
    have := h2.span
    exact readBytes_congr fun i hi => moved_below (by omega) (by omega) (by omega)
  have habove (x : Int) (hx : x ∈ post) : readBytes (putAtEnd (shiftOut 8192 p usedLen curLen)
      (usedLen - tokenSpan p curLen) tokenId tokBuf bufLen) (x + -tokenSpan p curLen) 20 = readBytes p x 20 := by
    obtain ⟨h1, h2, h3⟩ := hpost.mem hx
    have := h2.span
    apply readBytes_congr
    intro i hi
    rw [moved_above (by omega) (by omega) (by omega)]
    exact congrArg p (by omega)
  refine ⟨chain_append.mpr ⟨curLen, hpre.congr hbelow, ?_⟩, hbelow, habove⟩
  have hshift := hpost.shift (-tokenSpan p curLen) (by omega) habove
  rwa [Int.add_neg_cancel_right, ← sub_eq_add_neg] at hshift

end Edit

/-- The first token of that name is at `c`, behind the tokens `cs`, and holds `data`. -/
structure Finds (p : Mem Byte) (tokenId data : List Byte) (cs : List Int) (c : Int) : Prop where
  chain : Chain p 32 cs c
  others : ∀ x ∈ cs, named p tokenId x = false
  listed : Listed p c
  name : named p tokenId c = true
  len : tokenLen p c = data.length
  data_eq : readBytes p (c + 20) data.length = data
  inside : c + tokenSpan p c ≤ 8192

section Finds

variable {data : List Byte}

theorem Finds.copy (h : Finds p tokenId data cs c) {cs' : List Int} {c' : Int} (hchain : Chain q 32 cs' c')
    (hothers : ∀ x ∈ cs', named q tokenId x = false) (hle : c' ≤ c)
    (hcopy : ∀ i, 0 ≤ i → i < tokenSpan p c → q (c' + i) = p (c + i)) : Finds q tokenId data cs' c' := by
  have hspan := h.listed.span
  have hhead : readBytes q c' 20 = readBytes p c 20 := readBytes_congr fun i hi => hcopy i (by omega) (by omega)
  have hinside := h.inside
  have hlt := h.listed.2.2.2.2.2
  refine ⟨hchain, hothers, h.listed.congr hhead (by omega), ?_, ?_, ?_, ?_⟩
  · rw [named_congr hhead]
    exact h.name
  · rw [tokenLen_congr hhead]
    exact h.len
  · have hlen := h.len
    rw [← h.data_eq, length_readBytes]
    apply readBytes_congr
    intro i hi
    rw [add_assoc, add_assoc]
    exact hcopy _ (by omega) (by omega)
  · rw [tokenSpan_congr hhead]
    omega

theorem Finds.congr (h : Finds p tokenId data cs c) (hq : ∀ i, 32 ≤ i → i < c + tokenSpan p c → q i = p i) :
    Finds q tokenId data cs c := by
  have hhead (x : Int) (hx : x ∈ cs) : readBytes q x 20 = readBytes p x 20 := by
    obtain ⟨hlow, hl, hend⟩ := h.chain.mem hx
    have := hl.span
    have := h.listed.span
    exact readBytes_congr fun i hi => hq _ (by omega) (by omega)
  have hlow := h.chain.le
  refine h.copy (h.chain.congr hhead) (fun x hx => ?_) le_rfl fun i h1 h2 => hq _ (by omega) (by omega)
  rw [named_congr (hhead x hx)]
  exact h.others x hx

theorem Finds.patch (h : Finds p tokenId data cs c) {cur : Int} (hcur : cur ∈ cs) {bs : List Byte}
    (hbs : (bs.length : Int) ≤ tokenLen p cur) : Finds (patch p (cur + 20) bs) tokenId data cs c := by
  obtain ⟨pre, post, rfl⟩ := List.append_of_mem hcur
  obtain ⟨m, hpre, rfl, hl, hpost⟩ := chain_append.mp h.chain
  have hspan := hl.span
  have hle := hpost.le
  have hhead (x : Int) (hx : x ∈ pre ++ cur :: post) :
      readBytes (ByteMemory.patch p (cur + 20) bs) x 20 = readBytes p x 20 := by
    apply readBytes_patch_disjoint
    rcases List.mem_append.mp hx with hx | hx
    · have hmem := hpre.mem hx
      have := hmem.2.1.span
      exact .inl (by omega)
    · rcases List.mem_cons.mp hx with rfl | hx
      · exact .inl le_rfl
      · have := (hpost.mem hx).1
        exact .inr (by omega)
  refine h.copy (h.chain.congr hhead) (fun x hx => ?_) le_rfl fun i h1 h2 => ?_
  · rw [named_congr (hhead x hx)]
    exact h.others x hx
  · exact patch_outside _ _ _ _ (.inr (by omega))

theorem Finds.get (h : Finds p tokenId data cs c) (bufLen : Int) :
    getLoop 8192 p tokenId bufLen 8192 32 32 =
      if bufLen < data.length then some (-1, []) else some ((data.length : Int), data) := by
  obtain ⟨h1, -, -, hpos, hlt, hc⟩ := h.listed
  have hne : p c ≠ 0 := fun h0 => by
    rw [h0] at h1
    exact absurd h1 (by decide)
  have hcount := h.chain.length_lt
  have hle := h.chain.le
  obtain ⟨fuel, hfuel⟩ : ∃ fuel, 8192 = cs.length + (fuel + 1) := ⟨8191 - cs.length, by omega⟩
  have hname := h.name
  rw [named] at hname
  have hget := getLoop_chain h.chain h.others bufLen le_rfl (fuel + 1)
  rw [← hfuel] at hget
  rw [hget, getLoop, if_pos ⟨hne, hpos, hlt, by omega⟩, if_pos hname, h.len, Int.toNat_natCast]
  simp only [spTokenSize, h.data_eq]

end Finds

end AliceModem.ScratchPadTokens
