import AliceModem.Flash.ScratchPadFrame

namespace AliceModem.ScratchPadKeep

open Words Sectors ByteMemory Device SharedBlks Regions BigEndian ScratchPad ScratchPadMap ScratchPadFrame
  ScratchPadTokens

/-- `tokenId` points to the NUL terminated string `chars`. -/
structure Points (tokenId : Mem Byte) (chars : List Byte) : Prop where
  nul_free : 0 ∉ chars
  bytes : readBytes tokenId 0 (chars.length + 1) = chars ++ [0]

section Names

variable {xs cs rest : List Byte} {tokenId : Mem Byte} {chars : List Byte}

theorem sameName_terminated (hcs : 0 ∉ cs) (hlen : cs.length < xs.length) :
    sameName xs (cs ++ 0 :: rest) = true ↔ ∃ r, xs = cs ++ 0 :: r := by
  induction cs generalizing xs with
  | nil =>
      cases xs with
      | nil => cases hlen
      | cons x xs => simpa [sameName] using fun h => .inl h
  | cons c cs ih =>
      rw [List.mem_cons, not_or] at hcs
      cases xs with
      | nil => cases hlen
      | cons x xs =>
          have htail := ih hcs.2 (show cs.length < xs.length by simpa using hlen)
          rw [List.cons_append, sameName, Bool.and_eq_true, Bool.or_eq_true, decide_eq_true_eq, decide_eq_true_eq,
            htail]
          constructor
          · rintro ⟨rfl, h0 | ⟨r, rfl⟩⟩
            · exact absurd h0.symm hcs.1
            · exact ⟨r, rfl⟩
          · rintro ⟨r, h⟩
            obtain ⟨rfl, rfl⟩ := List.cons.inj h
            exact ⟨rfl, .inr ⟨r, rfl⟩⟩

theorem sameName_open (hcs : 0 ∉ cs) (hlen : cs.length = xs.length) : sameName xs cs = true ↔ xs = cs := by
  induction cs generalizing xs with
  | nil =>
      cases xs with
      | nil => simp [sameName]
      | cons x xs => cases hlen
  | cons c cs ih =>
      rw [List.mem_cons, not_or] at hcs
      cases xs with
      | nil => cases hlen
      | cons x xs =>
          rw [sameName, Bool.and_eq_true, Bool.or_eq_true, decide_eq_true_eq, decide_eq_true_eq,
            ih hcs.2 (by simpa using hlen), List.cons.injEq]
          constructor
          · rintro ⟨rfl, h0 | h⟩
            · exact absurd h0.symm hcs.1
            · exact ⟨rfl, h⟩
          · rintro ⟨h, h'⟩
            exact ⟨h, .inr h'⟩

theorem Points.short (hid : Points tokenId chars) (hle : chars.length ≤ 15) :
    ∃ rest, readBytes tokenId 0 16 = chars ++ 0 :: rest := by
  have hlen : 16 = (chars.length + 1) + (15 - chars.length) := by omega
  rw [hlen, readBytes_append, hid.bytes]
  exact ⟨_, List.append_assoc _ _ _⟩

theorem Points.long (hid : Points tokenId chars) (hge : 16 ≤ chars.length) :
    readBytes tokenId 0 16 = chars.take 16 := by
  have h := take_readBytes tokenId 0 (n := chars.length + 1) (k := 16) (by omega)
  rw [hid.bytes, List.take_append_of_le_length hge] at h
  exact h.symm

theorem length_tokenName (p : Mem Byte) (a : Int) : (tokenName p a).length = 16 := length_readBytes _ _ _

theorem named_short (hid : Points tokenId chars) (hle : chars.length ≤ 15) (p : Mem Byte) (a : Int) :
    named p (readBytes tokenId 0 16) a = true ↔ ∃ r, tokenName p a = chars ++ 0 :: r := by
  obtain ⟨rest, hrest⟩ := hid.short hle
  rw [named, hrest]
  exact sameName_terminated hid.nul_free (by rw [length_tokenName]; omega)

theorem named_long (hid : Points tokenId chars) (hge : 16 ≤ chars.length) (p : Mem Byte) (a : Int) :
    named p (readBytes tokenId 0 16) a = true ↔ tokenName p a = chars.take 16 := by
  rw [named, hid.long hge]
  refine sameName_open (fun h => hid.nul_free (List.mem_of_mem_take h)) ?_
  rw [length_tokenName, List.length_take, Nat.min_eq_left hge]

theorem Listed.short (hid : Points tokenId chars) {p : Mem Byte} {a : Int} (hl : Listed p a)
    (hname : named p (readBytes tokenId 0 16) a = true) :
    chars.length ≤ 15 ∧ (chars ≠ [] → 65 ≤ chars.headD 0 ∧ chars.headD 0 ≤ 122) := by
  obtain ⟨h1, h2, h3, -⟩ := hl
  by_cases hle : chars.length ≤ 15
  · refine ⟨hle, fun hne => ?_⟩
    obtain ⟨r, hr⟩ := (named_short hid hle p a).mp hname
    obtain ⟨x, xs, rfl⟩ := List.exists_cons_of_ne_nil hne
    have hfirst : p a = x := by
      rw [← headD_readBytes p a 15 0, ← tokenName, hr]
      rfl
    rw [hfirst] at h1 h2
    exact ⟨h1, h2⟩
  · rw [(named_long hid (by omega) p a).mp hname] at h3
    exact absurd (List.mem_of_mem_take h3) hid.nul_free

theorem named_distinct (hid : Points tokenId chars) (hle : chars.length ≤ 15) {other : Mem Byte} {chars' : List Byte}
    (hother : Points other chars') (hne : chars' ≠ chars) {p : Mem Byte} {a : Int}
    (hname : named p (readBytes tokenId 0 16) a = true) : named p (readBytes other 0 16) a = false := by
  rw [Bool.eq_false_iff]
  intro hsame
  obtain ⟨r, hr⟩ := (named_short hid hle p a).mp hname
  by_cases hle' : chars'.length ≤ 15
  · obtain ⟨r', hr'⟩ := (named_short hother hle' p a).mp hsame
    have htake : ∀ {l r : List Byte}, 0 ∉ l → (l ++ 0 :: r).takeWhile (· ≠ 0) = l := by
      intro l r hl
      rw [List.takeWhile_append_of_pos fun b hb => by simpa using fun h : b = 0 => hl (h ▸ hb)]
      simp
    have h := htake (r := r') hother.nul_free
    rw [← hr', hr, htake hid.nul_free] at h
    exact hne h.symm
  · have hfree : (0 : Byte) ∉ tokenName p a := by
      rw [(named_long hother (by omega) p a).mp hsame]
      exact fun h => hother.nul_free (List.mem_of_mem_take h)
    exact hfree (by rw [hr]; simp)

end Names

structure Holds (p : Mem Byte) (tokenId data : List Byte) : Prop where
  magic : readBytes p 0 8 = magicNumber
  found : ∃ cs c, Finds p tokenId data cs c

section Holds

variable {p q : Mem Byte} {tokenId data : List Byte} {cs : List Int} {c : Int}

theorem Holds.congr (h : Holds p tokenId data) (hq : ∀ i, 0 ≤ i → i < 8192 → q i = p i) : Holds q tokenId data := by
  obtain ⟨cs, c, hfinds⟩ := h.found
  have hinside := hfinds.inside
  refine ⟨?_, cs, c, hfinds.congr fun i h1 h2 => hq i (by omega) (by omega)⟩
  rw [← h.magic]
  exact readBytes_congr fun i hi => hq _ (by omega) (by omega)

variable {other : List Byte} {tokBuf : Option (Mem Byte)} {bufLen b cur : Int}

theorem unnamed_moved {pre mid : List Int} {d : Int} (hpre : ∀ x ∈ pre, readBytes q x 20 = readBytes p x 20)
    (hmid : ∀ y ∈ mid, readBytes q (y + d) 20 = readBytes p y 20) (h : ∀ x ∈ pre ++ mid, named p tokenId x = false) :
    ∀ x ∈ pre ++ mid.map (· + d), named q tokenId x = false := by
  intro x hx
  rcases List.mem_append.mp hx with hx | hx
  · rw [named_congr (hpre x hx)]
    exact h x (List.mem_append_left _ hx)
  · obtain ⟨y, hy, rfl⟩ := List.mem_map.mp hx
    rw [named_congr (hmid y hy)]
    exact h y (List.mem_append_right _ hy)

theorem finds_behind {pre mid es : List Int} (hrest : Chain p 32 (pre ++ cur :: (mid ++ c :: es)) b)
    (hinside : c + tokenSpan p c ≤ 8192) (hothers : ∀ x ∈ pre ++ mid, named p tokenId x = false)
    (hname : named p tokenId c = true) (hlen : tokenLen p c = data.length) (hdata : readBytes p (c + 20) data.length = data) :
    ∃ cs' c', Finds (putAtEnd (shiftOut 8192 p b cur) (b - tokenSpan p cur) other tokBuf bufLen) tokenId data cs' c' := by
  obtain ⟨hchain, hpre, hpost⟩ := chain_moved other bufLen tokBuf hrest
  obtain ⟨m, hp, rfl, hl, hbehind⟩ := chain_append.mp hrest
  obtain ⟨hlow, hc, hend⟩ := hbehind.mem (x := c) (by simp)
  have hfirst := hp.le
  have hspan := hl.span
  have hcspan := hc.span
  rw [List.map_append, ← List.append_assoc] at hchain
  obtain ⟨c', hchain', hc', -⟩ := chain_append.mp hchain
  obtain rfl : c + -tokenSpan p cur = c' := hc'
  have hcopy (i : Int) (h1 : 0 ≤ i) (h2 : i < tokenSpan p c) :
      putAtEnd (shiftOut 8192 p b cur) (b - tokenSpan p cur) other tokBuf bufLen (c + -tokenSpan p cur + i) =
        p (c + i) := by
    rw [moved_above (by omega) (by omega) (by omega)]
    exact congrArg p (by omega)
  have hhead := hpost c (by simp)
  refine ⟨_, _, hchain', unnamed_moved hpre (fun y hy => hpost y (List.mem_append_left _ hy)) hothers,
    hc.congr hhead (by have := hc.2.2.2.2.2; omega), ?_, ?_, ?_, ?_⟩
  · rw [named_congr hhead]
    exact hname
  · rw [tokenLen_congr hhead]
    exact hlen
  · rw [← hdata, length_readBytes]
    apply readBytes_congr
    intro i hi
    have h := hcopy (20 + i) (by omega) (by omega)
    rwa [← add_assoc, ← add_assoc] at h
  · rw [tokenSpan_congr hhead]
    omega

theorem Holds.keep (h : Holds p tokenId data)
    (hdistinct : ∀ x, named p tokenId x = true → named p other x = false)
    (hset : setBuf 8192 p other tokBuf bufLen = some (some q)) : Holds q tokenId data := by
  obtain ⟨cs, c, hfinds⟩ := h.found
  obtain ⟨b, hchain, hstop⟩ := chain_tokensFrom (p := p) (a := 32) 8192 (by decide)
  obtain ⟨es, hes⟩ := hfinds.chain.start hfinds.listed hchain hstop
  rw [setBuf_chain h.magic hchain hstop, Option.some.injEq] at hset
  split_ifs at hset with hover
  rw [Option.some.injEq] at hset
  rw [hes] at hset hchain
  obtain ⟨m, -, rfl, -, hrest⟩ := chain_append.mp hchain
  have hend := hrest.le
  rcases hfind : (cs ++ c :: es).find? (named p other) with _ | cur <;> rw [hfind] at hset <;> dsimp only at hset <;>
    subst hset
  · exact ⟨putAtEnd_magic _ _ _ _ _, cs, c, hfinds.congr fun i h1 h2 => putAtEnd_below _ _ _ _ h1 (by omega)⟩
  · have hname := List.find?_some hfind
    have hmem := List.mem_of_find?_eq_some hfind
    obtain ⟨hlow, hl, hcur⟩ := hchain.mem hmem
    have hpos := hl.2.2.2.1
    refine ⟨rewriteToken_magic h.magic hlow, ?_⟩
    rw [List.mem_append, List.mem_cons] at hmem
    rcases hmem with hmem | rfl | hmem
    · rcases rewriteToken_cases p b cur other tokBuf bufLen with ⟨buf, -, hlen, he⟩ | ⟨-, he⟩ <;> rw [he]
      · exact ⟨cs, c, hfinds.patch hmem (by rw [length_readBytes]; omega)⟩
      · obtain ⟨pre, mid, rfl⟩ := List.append_of_mem hmem
        rw [List.append_assoc, List.cons_append] at hchain
        refine finds_behind hchain hfinds.inside (fun x hx => hfinds.others x ?_) hfinds.name hfinds.len hfinds.data_eq
        rw [List.mem_append, List.mem_cons]
        exact (List.mem_append.mp hx).imp_right .inr
    · rw [hdistinct _ hfinds.name] at hname
      cases hname
    · have hbehind := (hrest.mem hmem).1
      exact ⟨cs, c, hfinds.congr fun i h1 h2 => rewriteToken_below hcur h1 (by omega)⟩

end Holds

section Store

variable {p : Mem Byte} {tokenId : Mem Byte} {t : Token} (hid : IsName tokenId t.name)

include hid

theorem finds_stored {cs : List Int} {u : Int} (h : Chain p 32 cs u)
    (hcs : ∀ x ∈ cs, named p (readBytes tokenId 0 16) x = false) (ht : readBytes p u t.bytes.length = t.bytes)
    (hroom : u + t.data.length + 20 ≤ 8192) : Finds p (readBytes tokenId 0 16) t.data cs u := by
  have hpos := t.pos
  have hspan : t.span = 20 + ((t.data.length : Int) + 3) / 4 * 4 := rfl
  refine ⟨h, hcs, stored_listed ht (by omega), ?_, stored_len ht, stored_data ht, ?_⟩
  · rw [named, stored_name ht, sameName_padded _ hid]
    exact decide_eq_true rfl
  · have hmod := h.mod (by decide)
    rw [tokenSpan, stored_skip ht]
    omega

theorem putAtEnd_stored {u : Int} (hu : 32 ≤ u) {buf : Mem Byte} (hbuf : readBytes buf 0 t.data.length = t.data) :
    readBytes (putAtEnd p u (readBytes tokenId 0 16) (some buf) t.data.length) u t.bytes.length = t.bytes := by
  have hlt := t.lt
  obtain ⟨hwritten, -⟩ := token_written p u t (spToken_name hid (n := t.data.length) (by omega))
  simp only [putAtEnd, Int.toNat_natCast, hbuf]
  rw [readBytes_patch_disjoint _ _ _ _ _ (.inr (show (0 : Int) + 32 ≤ u by omega))]
  exact hwritten

theorem finds_appended {cs : List Int} {u : Int} (h : Chain p 32 cs u)
    (hcs : ∀ x ∈ cs, named p (readBytes tokenId 0 16) x = false) (hroom : u + t.data.length + 20 ≤ 8192)
    {buf : Mem Byte} (hbuf : readBytes buf 0 t.data.length = t.data) :
    Finds (putAtEnd p u (readBytes tokenId 0 16) (some buf) t.data.length) (readBytes tokenId 0 16) t.data cs u := by
  have hlow := h.le
  have hhead (x : Int) (hx : x ∈ cs) : readBytes (putAtEnd p u (readBytes tokenId 0 16) (some buf) t.data.length) x 20 =
      readBytes p x 20 := by
    obtain ⟨h1, h2, h3⟩ := h.mem hx
    have := h2.span
    exact readBytes_congr fun i hi => putAtEnd_below _ _ _ _ (by omega) (by omega)
  apply finds_stored hid (h.congr hhead)
  · intro x hx
    rw [named_congr (hhead x hx)]
    exact hcs x hx
  · exact putAtEnd_stored hid (by omega) hbuf
  · exact hroom

omit hid in
theorem finds_overwritten {pre post : List Int} {cur b : Int} {id data : List Byte}
    (h : Chain p 32 (pre ++ cur :: post) b) (hb : b ≤ 8192) (hpre : ∀ x ∈ pre, named p id x = false)
    (hname : named p id cur = true) (hlen : tokenLen p cur = data.length) :
    Finds (ByteMemory.patch p (cur + 20) data) id data pre cur := by
  obtain ⟨m, hchain, rfl, hl, hpost⟩ := chain_append.mp h
  have hend := hpost.le
  have hhead (x : Int) (hx : x ≤ cur) : readBytes (ByteMemory.patch p (cur + 20) data) x 20 = readBytes p x 20 :=
    readBytes_patch_disjoint _ _ _ _ _ (.inl (by omega))
  have hle (x : Int) (hx : x ∈ pre) : x ≤ cur := by
    obtain ⟨-, hx, hxe⟩ := hchain.mem hx
    have := hx.span
    omega
  refine ⟨hchain.congr fun x hx => hhead x (hle x hx), fun x hx => ?_, hl.congr (hhead cur le_rfl) hl.2.2.2.2.2,
    ?_, ?_, readBytes_patch _ _ _, ?_⟩
  · rw [named_congr (hhead x (hle x hx))]
    exact hpre x hx
  · rw [named_congr (hhead cur le_rfl)]
    exact hname
  · rw [tokenLen_congr (hhead cur le_rfl)]
    exact hlen
  · rw [tokenSpan_congr (hhead cur le_rfl)]
    omega

theorem finds_moved {pre post : List Int} {cur b : Int} (h : Chain p 32 (pre ++ cur :: post) b)
    (hothers : ∀ x ∈ pre ++ post, named p (readBytes tokenId 0 16) x = false)
    (hroom : b + t.data.length + 20 ≤ 8192) {buf : Mem Byte} (hbuf : readBytes buf 0 t.data.length = t.data) :
    ∃ cs c, Finds (putAtEnd (shiftOut 8192 p b cur) (b - tokenSpan p cur) (readBytes tokenId 0 16) (some buf)
      t.data.length) (readBytes tokenId 0 16) t.data cs c := by
  obtain ⟨hchain, hpre, hpost⟩ := chain_moved (readBytes tokenId 0 16) t.data.length (some buf) h
  obtain ⟨m, hp, rfl, hl, hrest⟩ := chain_append.mp h
  have hlow := hp.le
  have hend := hrest.le
  have hspan := hl.span
  exact ⟨_, _, finds_stored hid hchain (unnamed_moved hpre hpost hothers) (putAtEnd_stored hid (by omega) hbuf) (by omega)⟩

end Store

def namesakes (p : Mem Byte) (tokenId : List Byte) : List Int :=
  if readBytes p 0 8 = magicNumber then (tokens p).filter (named p tokenId) else []

/-- A store takes the place of the one token of that name, or of the first one if
the length stays the same. -/
def Replaceable (p : Mem Byte) (tokenId : List Byte) (n : Nat) : Prop :=
  (namesakes p tokenId).length ≤ 1 ∨ tokenLen p ((namesakes p tokenId).headD 0) = n

instance (p : Mem Byte) (tokenId : List Byte) (n : Nat) : Decidable (Replaceable p tokenId n) :=
  inferInstanceAs (Decidable (_ ∨ _))

theorem store_holds {p q tokenId buf : Mem Byte} {t : Token} (hid : IsName tokenId t.name)
    (hbuf : readBytes buf 0 t.data.length = t.data) (hone : Replaceable p (readBytes tokenId 0 16) t.data.length)
    (hset : setBuf 8192 p (readBytes tokenId 0 16) (some buf) t.data.length = some (some q)) :
    Holds q (readBytes tokenId 0 16) t.data := by
  have hpos := t.pos
  have hlt := t.lt
  by_cases hmagic : readBytes p 0 8 = magicNumber
  swap
  · rw [setBuf_new hmagic, Option.some.injEq, Option.some.injEq] at hset
    subst hset
    exact ⟨putAtEnd_magic _ _ _ _ _, [], 32, finds_appended hid (show Chain p 32 [] 32 from rfl) (by simp) (by omega) hbuf⟩
  obtain ⟨b, hchain, hstop⟩ := chain_tokensFrom (p := p) (a := 32) 8192 (by decide)
  rw [Replaceable, namesakes, if_pos hmagic, tokens] at hone
  rw [setBuf_chain hmagic hchain hstop, Option.some.injEq] at hset
  split_ifs at hset with hover
  rw [Option.some.injEq] at hset
  rcases hfind : (tokensFrom p 8192 32).find? (named p (readBytes tokenId 0 16)) with _ | cur
  · rw [hfind] at hset
    dsimp only at hset
    subst hset
    rw [List.find?_eq_none] at hfind
    exact ⟨putAtEnd_magic _ _ _ _ _, _, b,
      finds_appended hid hchain (fun x hx => Bool.eq_false_iff.mpr (hfind x hx)) (by omega) hbuf⟩
  · rw [hfind] at hset
    dsimp only at hset
    subst hset
    obtain ⟨hname, pre, post, hsplit, hpre⟩ := List.find?_eq_some_iff_append.mp hfind
    have hpre' (x : Int) (hx : x ∈ pre) : named p (readBytes tokenId 0 16) x = false := by simpa using hpre x hx
    have hfilter : (pre ++ cur :: post).filter (named p (readBytes tokenId 0 16)) =
        cur :: post.filter (named p (readBytes tokenId 0 16)) := by
      rw [List.filter_append, List.filter_eq_nil_iff.mpr (by simpa using hpre'), List.nil_append,
        List.filter_cons_of_pos hname]
    rw [hsplit] at hchain hone
    rw [hfilter, List.length_cons, List.headD_cons] at hone
    have hlow := (hchain.mem (x := cur) (by simp)).1
    refine ⟨rewriteToken_magic hmagic hlow, ?_⟩
    rcases rewriteToken_cases p b cur (readBytes tokenId 0 16) (some buf) t.data.length with
      ⟨buf', hbuf', hlen, he⟩ | ⟨hlen, he⟩ <;> rw [he]
    · obtain rfl := Option.some.inj hbuf'
      rw [Int.toNat_natCast, hbuf]
      exact ⟨pre, cur, finds_overwritten hchain (by omega) hpre' hname hlen⟩
    · have hnone : post.filter (named p (readBytes tokenId 0 16)) = [] := by
        rcases hone with hone | hone
        · exact List.length_eq_zero_iff.mp (by omega)
        · exact absurd hone (hlen rfl)
      refine finds_moved hid hchain (fun x hx => ?_) (by omega) hbuf
      rcases List.mem_append.mp hx with hx | hx
      · exact hpre' x hx
      · exact Bool.eq_false_iff.mpr (List.filter_eq_nil_iff.mp hnone x hx)

theorem Replaceable.congr {p q : Mem Byte} {tokenId : List Byte} {n : Nat} (h : Replaceable p tokenId n)
    (hq : ∀ i, 0 ≤ i → i < 8192 → q i = p i) {cs : List Int} {b : Int} (hchain : Chain q 32 cs b)
    (hb : ¬ Listed q b) (hroom : b + 20 ≤ 8192) : Replaceable q tokenId n := by
  obtain ⟨hchain', hb', hhead⟩ := hchain.window hb hroom fun i h1 h2 => (hq i h1 h2).symm
  have hmagic : readBytes q 0 8 = readBytes p 0 8 := readBytes_congr fun i hi => hq _ (by omega) (by omega)
  have hsame : namesakes q tokenId = namesakes p tokenId := by
    rw [namesakes, namesakes, hmagic, tokens_eq hchain hb, tokens_eq hchain' hb']
    split_ifs
    · exact List.filter_congr fun x hx => (named_congr (hhead x hx)).symm
    · rfl
  rw [Replaceable, hsame]
  rcases hn : namesakes p tokenId with _ | ⟨c, rest⟩
  · exact .inl (Nat.zero_le 1)
  · rw [Replaceable, hn] at h
    refine h.imp_right fun hlen => ?_
    have hc : c ∈ cs := by
      rw [← hsame, namesakes, tokens_eq hchain hb] at hn
      split_ifs at hn
      exact List.mem_of_mem_filter (hn ▸ List.mem_cons_self)
    rw [List.headD_cons] at hlen ⊢
    rw [← hlen]
    exact (tokenLen_congr (hhead c hc)).symm

section Device

variable (g : Geometry) (info : FlashAddrInfo)

def pBuf (m heap : Mem Byte) : Mem Byte :=
  view (getSharedBlks g m heap info.scratchPad.startBlk info.scratchPad.endBlk) info.scratchPad.blkOffset

def written (m q : Mem Byte) : Mem Byte := fun i =>
  if blkStart g info.scratchPad.startBlk ≤ i ∧ i < blkStart g info.scratchPad.endBlk then
    q (i - info.scratchPad.first g) else m i

variable {g info} (hfit : info.scratchPad.Fits g)

theorem padOf_view (q : Mem Byte) : padOf g info (view q (-info.scratchPad.first g)) = q := by
  funext i
  exact congrArg q (neg_add_cancel_left _ i)

include hfit

theorem pBuf_written (m q heap : Mem Byte) (i : Int) :
    pBuf g info (written g info m q) heap i =
      if 0 ≤ info.scratchPad.blkOffset + i ∧ info.scratchPad.blkOffset + i <
          blkStart g info.scratchPad.endBlk - blkStart g info.scratchPad.startBlk
      then q i else heap (info.scratchPad.blkOffset + i) := by
  rw [pBuf, view, getSharedBlks_eq _ heap hfit.start_nonneg hfit.mono hfit.inside]
  split_ifs with hi
  · rw [written, if_pos (by omega), Region.first]
    exact congrArg q (by omega)
  · rfl

variable (hlength : info.scratchPad.length = 8192)

include hlength

theorem pBuf_window (m heap : Mem Byte) {i : Int} (hl : 0 ≤ i) (hu : i < 8192) :
    pBuf g info m heap i = padOf g info m i := pBuf_eq hfit hlength m heap hl hu

theorem padOf_written (m q : Mem Byte) {i : Int} (hl : 0 ≤ i) (hu : i < 8192) :
    padOf g info (written g info m q) i = q i := by
  have hwindow := hfit.window
  have hoffset := hfit.offset_nonneg
  rw [padOf, view, written, Region.first, if_pos (by omega)]
  exact congrArg q (by omega)

theorem set_returned {f : Flash} {heap tokenId : Mem Byte} {tokBuf : Option (Mem Byte)} {bufLen : Int}
    (h : (kerSysScratchPadSet g info f heap tokenId tokBuf bufLen).1 = some 0) :
    ¬ exceedsPad 8192 bufLen ∧
    ∃ q, setBuf 8192 (pBuf g info f.mem heap) (readBytes tokenId 0 16) tokBuf bufLen = some (some q) ∧
      (kerSysScratchPadSet g info f heap tokenId tokBuf bufLen).2.mem = written g info f.mem q := by
  rw [kerSysScratchPadSet] at h ⊢
  dsimp only at h ⊢
  rw [hlength, if_neg (by decide)] at h ⊢
  by_cases hex : exceedsPad 8192 bufLen
  · rw [if_pos hex] at h
    cases h
  rw [if_neg hex] at h ⊢
  rw [← pBuf] at h ⊢
  refine ⟨hex, ?_⟩
  rcases hset : setBuf 8192 (pBuf g info f.mem heap) (readBytes tokenId 0 16) tokBuf bufLen with _ | _ | q
  · rw [hset] at h
    cases h
  · rw [hset] at h
    cases h
  · rw [hset] at h
    refine ⟨q, rfl, ?_⟩
    dsimp only at h ⊢
    obtain ⟨-, -, hmem⟩ := setSharedBlks_ok (fresh f.mem) rfl hfit.start_nonneg hfit.mono hfit.inside
      (view q (-info.scratchPad.blkOffset))
    rw [setSharedBlks_returned (Option.some.inj h)]
    funext i
    rw [hmem, written, view, Region.first]
    split_ifs
    · exact congrArg q (by omega)
    · rfl

omit hfit in
theorem get_accepted {m heap tokenId : Mem Byte} {len : Int} (hl : 0 ≤ len) (hu : len < 8140)
    (hmagic : readBytes (pBuf g info m heap) 0 8 = magicNumber) :
    kerSysScratchPadGet g info m heap tokenId len =
      getLoop 8192 (pBuf g info m heap) (readBytes tokenId 0 16) len 8192 32 32 := by
  have hlen : ¬ exceedsPad 8192 len := (exceedsPad_iff (by omega) (by omega)).mpr ⟨hl, hu⟩
  rw [kerSysScratchPadGet]
  dsimp only
  rw [hlength, if_neg (by decide), if_neg hlen, toNat_pad, ← pBuf, if_neg (not_not.mpr hmagic)]

variable (g info) in
/-- The device after calls on other names that all returned 0. -/
inductive After (chars : List Byte) (m : Mem Byte) : Mem Byte → Prop
  | start : After chars m m
  | set {f : Flash} (h : After chars m f.mem) {other : List Byte} (hne : other ≠ chars) {tokenId : Mem Byte}
      (hid : Points tokenId other) (heap : Mem Byte) (tokBuf : Option (Mem Byte)) (bufLen : Int)
      (hl : -2147483648 ≤ bufLen) (hu : bufLen < 2147483648)
      (hok : (kerSysScratchPadSet g info f heap tokenId tokBuf bufLen).1 = some 0) :
      After chars m (kerSysScratchPadSet g info f heap tokenId tokBuf bufLen).2.mem

theorem After.holds {chars data : List Byte} {tokenId m m' : Mem Byte} (hid : Points tokenId chars)
    (hle : chars.length ≤ 15) (h : After g info chars m m')
    (hm : Holds (padOf g info m) (readBytes tokenId 0 16) data) :
    Holds (padOf g info m') (readBytes tokenId 0 16) data := by
  induction h with
  | start => exact hm
  | set _ hne hother heap tokBuf bufLen _ _ hok ih =>
      obtain ⟨-, q, hset, hmem⟩ := set_returned hfit hlength hok
      have hbuf := ih.congr fun i h1 h2 => pBuf_window hfit hlength _ heap h1 h2
      have hkept := hbuf.keep (fun x hx => named_distinct hid hle hother hne hx) hset
      rw [hmem]
      exact hkept.congr fun i h1 h2 => padOf_written hfit hlength _ q h1 h2

theorem store_kept {f : Flash} {heap tokenId buf m' : Mem Byte} {t : Token} (hid : IsName tokenId t.name)
    (hbuf : readBytes buf 0 t.data.length = t.data)
    (hone : Replaceable (padOf g info f.mem) (readBytes tokenId 0 16) t.data.length)
    (hok : (kerSysScratchPadSet g info f heap tokenId (some buf) t.data.length).1 = some 0)
    (hafter : After g info t.name.chars (kerSysScratchPadSet g info f heap tokenId (some buf) t.data.length).2.mem m')
    (heap' : Mem Byte) {len : Int} (hlen : t.data.length ≤ len) (hu : len < 8140) :
    kerSysScratchPadGet g info m' heap' tokenId len = some ((t.data.length : Int), t.data) := by
  obtain ⟨-, q, hset, hmem⟩ := set_returned hfit hlength hok
  have hwin (i : Int) (h1 : 0 ≤ i) (h2 : i < 8192) : pBuf g info f.mem heap i = padOf g info f.mem i :=
    pBuf_window hfit hlength _ heap h1 h2
  have hstored : Holds q (readBytes tokenId 0 16) t.data := by
    refine store_holds hid hbuf ?_ hset
    by_cases hmagic : readBytes (pBuf g info f.mem heap) 0 8 = magicNumber
    · obtain ⟨b, hchain, hstop⟩ := chain_tokensFrom (p := pBuf g info f.mem heap) (a := 32) 8192 (by decide)
      rw [setBuf_chain hmagic hchain hstop, Option.some.injEq] at hset
      split_ifs at hset with hover
      exact hone.congr hwin hchain hstop (by omega)
    · rw [Replaceable, namesakes, if_neg hmagic]
      exact .inl (Nat.zero_le 1)
  have hpoints : Points tokenId t.name.chars := ⟨t.name.nul_free, hid⟩
  rw [hmem] at hafter
  have hholds := (hafter.holds hfit hlength hpoints t.name.le
    (hstored.congr fun i h1 h2 => padOf_written hfit hlength _ q h1 h2)).congr
      fun i h1 h2 => pBuf_window hfit hlength m' heap' h1 h2
  obtain ⟨cs, c, hfinds⟩ := hholds.found
  rw [get_accepted hlength (by omega) hu hholds.magic, hfinds.get, if_neg (by omega)]

end Device

end AliceModem.ScratchPadKeep
