import AliceModem.Lib.ByteMemory
import AliceModem.Lib.Dns
import AliceModem.Lib.Transition
import AliceModem.Lib.Words

namespace AliceModem.Resolve

open BigEndian ByteMemory CString Dns Transition Words

def hostnameSize : Nat := 64

def dnsCacheSize : Nat := 32

def answerSize : Nat := 256

structure Entry where
  timestamp : Int
  addr : List UInt8
  hostname : List UInt8
  deriving DecidableEq

def emptyEntry : Entry := ⟨0, [0, 0, 0, 0], []⟩

structure Cache where
  entries : List Entry
  length_entries : entries.length = dnsCacheSize

namespace Cache

def initial : Cache := ⟨List.replicate dnsCacheSize emptyEntry, List.length_replicate⟩

def cleanEntry (t : Int) (e : Entry) : Entry := if e.hostname ≠ [] ∧ e.timestamp < t then emptyEntry else e

def clean (t : Int) (c : Cache) : Cache :=
  ⟨c.entries.map (cleanEntry t), (List.length_map _).trans c.length_entries⟩

def search (hostname : List UInt8) (c : Cache) : Option Entry :=
  c.entries.find? fun e => e.hostname ≠ [] ∧ hostname = e.hostname

/-- The loop over the entries with its variables `i`, `check` and `j`. The
differences are compared as unsigned numbers. -/
def slotLoop (t : Int) : List Entry → Nat → Nat → Nat → Nat
  | [], _, _, j => j
  | e :: es, i, check, j =>
      if e.hostname = [] then i
      else if uint32 (e.timestamp - t) ≤ check then slotLoop t es (i + 1) (int32 (e.timestamp - t)).natAbs i
      else slotLoop t es (i + 1) check j

def slot (t : Int) (c : Cache) : Nat :=
  slotLoop t c.entries 0 (int32 ((c.entries.headD emptyEntry).timestamp - t)).natAbs 0

def store (i : Nat) (e : Entry) (c : Cache) : Cache := ⟨c.entries.set i e, List.length_set.trans c.length_entries⟩

end Cache

/-- A call of the function. One of the pointers may be `NULL`; the clock shows
`t` at the start and `now` when the response is there, which is `none` if the
query fails. The buffer behind the response keeps the bytes `stale`. -/
structure Call where
  hostname : Str
  null : Bool
  t : Int
  now : Int
  response : Option Message
  stale : Mem UInt8

def Call.name (c : Call) : List UInt8 := c.hostname.chars

def answer (m : Message) (stale : Mem UInt8) : Mem UInt8 := patch stale 0 m.bytes

/-- The header, the name with its first length and its end, the rest of the
question and six bytes of the record are passed. -/
def ttlPtr (hostname : List UInt8) : Nat := 12 + (hostname.length + 2) + 4 + 6

def addrPtr (hostname : List UInt8) : Nat := ttlPtr hostname + (4 + 2)

structure Outcome where
  code : Int
  addr : Option (List UInt8)
  cache : Cache

def newEntry (c : Call) (answer : Mem UInt8) : Entry :=
  ⟨int32 (c.now + be32 (readBytes answer (ttlPtr c.name) 4)), readBytes answer (addrPtr c.name) 4, c.name.take hostnameSize⟩

def resolveIpByName (cache : Cache) (c : Call) : Outcome :=
  if c.null then ⟨-1, none, cache⟩
  else
    let cache := cache.clean c.t
    match cache.search c.name with
    | some e => ⟨1, some e.addr, cache⟩
    | none =>
        match c.response with
        | none => ⟨-1, none, cache⟩
        | some m =>
            let e := newEntry c (answer m c.stale)
            ⟨0, some e.addr, cache.store (cache.slot c.t) e⟩

/-- The cache with the calls that have received a response, and the time of the last call. -/
structure World where
  cache : Cache
  received : List Call
  clock : Int

def World.initial : World := ⟨Cache.initial, [], 0⟩

def World.call (w : World) (c : Call) : World :=
  let o := resolveIpByName w.cache c
  ⟨o.cache, if o.code = 0 then c :: w.received else w.received, c.now⟩

/-- What a name server may answer is given by `R`, up to the lifetimes and
addresses of the answers. -/
structure Env (R : List UInt8 → Message → Prop) (w : World) (c : Call) : Prop where
  clock_le : w.clock ≤ c.t
  t_le : c.t ≤ c.now
  now_lt : c.now < 2147483648
  name_lt : c.name.length < hostnameSize
  responses : ∀ m, c.response = some m → Answers c.name answerSize m ∧ R c.name m.blank

/-- The call has received the address for the name, with a lifetime that ends at `time` or later. -/
structure Source (name addr : List UInt8) (time : Int) (c : Call) : Prop where
  name_eq : c.name = name
  record : ∃ m, c.response = some m ∧ ∃ r ∈ m.answers, r.Address addr ∧ time ≤ c.now + r.ttl.toNat

def answerTime (w : World) (c : Call) : Int := if (resolveIpByName w.cache c).code = 0 then c.now else c.t

def ReplacesOldest (w : World) (c : Call) : Prop :=
  (resolveIpByName w.cache c).code = 0 → (∀ e ∈ (w.cache.clean c.t).entries, e.hostname ≠ []) →
    ∃ i old new, (w.cache.clean c.t).entries[i]? = some old ∧
      (resolveIpByName w.cache c).cache.entries = (w.cache.clean c.t).entries.set i new ∧
        ∀ e ∈ (w.cache.clean c.t).entries, old.timestamp - c.t ≤ e.timestamp - c.t

structure Good (w : World) (c : Call) : Prop where
  real : ∀ addr, (resolveIpByName w.cache c).addr = some addr →
    ∃ c' ∈ (w.call c).received, Source c.name addr (answerTime w c) c'
  replaces : ReplacesOldest w c

/-- The first answer is an address, and its owner ends where the code expects it. -/
def Direct (name : List UInt8) (m : Message) : Prop :=
  ∃ r rest, m.answers = r :: rest ∧ (∃ addr, r.Address addr) ∧
    m.questionName.bytes.length + r.owner.bytes.length = name.length + 4

namespace Cache

variable {c : Cache} {t : Int} {e : Entry}

theorem mem_clean (h : e ∈ (c.clean t).entries) (hne : e.hostname ≠ []) : e ∈ c.entries ∧ t ≤ e.timestamp := by
  obtain ⟨e', he', rfl⟩ := List.mem_map.mp h
  rw [cleanEntry] at hne ⊢
  split at hne
  next => exact absurd rfl hne
  next hkeep =>
      rw [if_neg hkeep]
      exact ⟨he', Int.not_lt.mp fun hlt => hkeep ⟨hne, hlt⟩⟩

theorem search_some {hostname : List UInt8} (h : c.search hostname = some e) :
    e ∈ c.entries ∧ e.hostname ≠ [] ∧ hostname = e.hostname := by
  have hfound := List.find?_some h
  exact ⟨List.mem_of_find?_eq_some h, of_decide_eq_true hfound⟩

theorem mem_store {i : Nat} {new : Entry} (h : e ∈ (c.store i new).entries) : e = new ∨ e ∈ c.entries :=
  (List.mem_or_eq_of_mem_set h).symm

theorem slotLoop_oldest (ht : 0 ≤ t) {all : List Entry}
    (hall : ∀ e ∈ all, e.hostname ≠ [] ∧ t ≤ e.timestamp ∧ e.timestamp < 2147483648) {passed es : List Entry}
    (hsplit : all = passed ++ es) {j check : Nat} {best : Entry} (hj : all[j]? = some best)
    (hcheck : (check : Int) = best.timestamp - t) (hbest : ∀ e ∈ passed, best.timestamp ≤ e.timestamp) :
    ∃ old, all[slotLoop t es passed.length check j]? = some old ∧ ∀ e ∈ all, old.timestamp ≤ e.timestamp := by
  induction es generalizing passed j check best with
  | nil =>
      rw [List.append_nil] at hsplit
      exact ⟨best, hj, hsplit ▸ hbest⟩
  | cons e es ih =>
      have he : e ∈ all := hsplit ▸ List.mem_append_right passed List.mem_cons_self
      obtain ⟨hname, hle, hlt⟩ := hall e he
      have hdiff : (uint32 (e.timestamp - t) : Int) = e.timestamp - t := uint32_of_range (by omega) (by omega)
      have hnext : all = (passed ++ [e]) ++ es := by simp [hsplit]
      have hlength : (passed ++ [e]).length = passed.length + 1 := List.length_append
      rw [slotLoop, if_neg hname]
      split
      next holder =>
          have habs : ((int32 (e.timestamp - t)).natAbs : Int) = e.timestamp - t := by
            rw [int32_of_range (by omega) (by omega)]
            omega
          have hhere : all[passed.length]? = some e := by simp [hsplit]
          refine hlength ▸ ih hnext hhere habs fun e' he' => ?_
          rcases List.mem_append.mp he' with hmem | hmem
          · have hpassed := hbest e' hmem
            omega
          · rw [List.mem_singleton.mp hmem]
      next hyounger =>
          refine hlength ▸ ih hnext hj hcheck fun e' he' => ?_
          rcases List.mem_append.mp he' with hmem | hmem
          · exact hbest e' hmem
          · rw [List.mem_singleton.mp hmem]
            omega

theorem slot_oldest (ht : 0 ≤ t) (hall : ∀ e ∈ c.entries, e.hostname ≠ [] ∧ t ≤ e.timestamp ∧ e.timestamp < 2147483648) :
    ∃ old, c.entries[c.slot t]? = some old ∧ ∀ e ∈ c.entries, old.timestamp ≤ e.timestamp := by
  have hne : c.entries ≠ [] := by
    intro hnil
    have hlength := c.length_entries
    rw [hnil] at hlength
    cases hlength
  obtain ⟨e, es, hentries⟩ := List.exists_cons_of_ne_nil hne
  obtain ⟨-, hle, hlt⟩ := hall e (hentries ▸ List.mem_cons_self)
  have hhead : c.entries.headD emptyEntry = e := by simp [hentries]
  have hcheck : ((int32 (e.timestamp - t)).natAbs : Int) = e.timestamp - t := by
    rw [int32_of_range (by omega) (by omega)]
    omega
  have hfirst : c.entries[0]? = some e := by simp [hentries]
  rw [slot, hhead]
  exact slotLoop_oldest ht hall (List.nil_append c.entries).symm hfirst hcheck (by simp)

end Cache

theorem resolveIpByName_cases (cache : Cache) (c : Call) :
    (∃ cache', (cache' = cache ∨ cache' = cache.clean c.t) ∧ resolveIpByName cache c = ⟨-1, none, cache'⟩) ∨
      (∃ e, (cache.clean c.t).search c.name = some e ∧ resolveIpByName cache c = ⟨1, some e.addr, cache.clean c.t⟩) ∨
        ∃ m, c.response = some m ∧ resolveIpByName cache c =
          ⟨0, some (newEntry c (answer m c.stale)).addr,
            (cache.clean c.t).store ((cache.clean c.t).slot c.t) (newEntry c (answer m c.stale))⟩ := by
  rw [resolveIpByName]
  split
  next => exact .inl ⟨cache, .inl rfl, rfl⟩
  next =>
      cases hsearch : (cache.clean c.t).search c.name with
      | some e =>
          refine .inr (.inl ⟨e, rfl, ?_⟩)
          simp only [hsearch]
      | none =>
          cases hresponse : c.response with
          | none =>
              refine .inl ⟨cache.clean c.t, .inr rfl, ?_⟩
              simp only [hsearch]
          | some m =>
              refine .inr (.inr ⟨m, rfl, ?_⟩)
              simp only [hsearch]

theorem readBytes_middle (m : Mem UInt8) (xs ys zs : List UInt8) :
    readBytes (patch m 0 (xs ++ (ys ++ zs))) xs.length ys.length = ys := by
  have hright := readBytes_patch_right m 0 xs ys
  rw [zero_add] at hright
  rw [← List.append_assoc, ← patch_append, readBytes_patch_disjoint _ _ _ _ _ (.inl (by rw [List.length_append]; omega)), hright]

theorem newEntry_direct {c : Call} {m : Message} (hnow : 0 ≤ c.now) (h : Direct c.name m) :
    ∃ r ∈ m.answers, r.Address (newEntry c (answer m c.stale)).addr ∧
      (newEntry c (answer m c.stale)).timestamp ≤ c.now + r.ttl.toNat := by
  obtain ⟨r, rest, hanswers, ⟨addr, v, hdata, rfl⟩, hlen⟩ := h
  have hqlen := m.length_head
  have hv : v.toList.length = 4 := v.length_toList
  have hbytes : m.bytes = (m.head ++ r.owner.bytes ++ bytes16 1 ++ bytes16 1) ++ (bytes32 r.ttl.toNat ++
      (bytes16 4 ++ (v.toList ++ (rest.flatMap Record.bytes ++ m.others.flatMap Record.bytes)))) := by
    simp [Message.bytes, hanswers, Record.bytes, Record.head, hdata, Data.type, Data.bytes]
  have hbytes' : m.bytes = (m.head ++ r.owner.bytes ++ bytes16 1 ++ bytes16 1 ++ bytes32 r.ttl.toNat ++ bytes16 4) ++
      (v.toList ++ (rest.flatMap Record.bytes ++ m.others.flatMap Record.bytes)) := by simp [hbytes]
  have httl : readBytes (answer m c.stale) (ttlPtr c.name) 4 = bytes32 r.ttl.toNat := by
    have hptr : ttlPtr c.name = (m.head ++ r.owner.bytes ++ bytes16 1 ++ bytes16 1).length := by
      simp only [ttlPtr, List.length_append, length_bytes16]
      omega
    rw [answer, hbytes, hptr]
    exact readBytes_middle c.stale _ (bytes32 r.ttl.toNat) _
  have haddr : readBytes (answer m c.stale) (addrPtr c.name) 4 = v.toList := by
    have hptr : addrPtr c.name =
        (m.head ++ r.owner.bytes ++ bytes16 1 ++ bytes16 1 ++ bytes32 r.ttl.toNat ++ bytes16 4).length := by
      simp only [addrPtr, ttlPtr, List.length_append, length_bytes16, length_bytes32]
      omega
    have hread := readBytes_middle c.stale
      (m.head ++ r.owner.bytes ++ bytes16 1 ++ bytes16 1 ++ bytes32 r.ttl.toNat ++ bytes16 4) v.toList
      (rest.flatMap Record.bytes ++ m.others.flatMap Record.bytes)
    rw [hv] at hread
    rw [answer, hbytes', hptr, hread]
  have hword : be32 (bytes32 r.ttl.toNat) = r.ttl.toNat := by
    have hroundtrip := be32_bytes32 r.ttl.toNat_lt []
    rwa [List.append_nil] at hroundtrip
  refine ⟨r, hanswers ▸ List.mem_cons_self, ⟨v, hdata, haddr.symm⟩, ?_⟩
  rw [newEntry, httl, hword]
  exact int32_le (by omega)

def Sourced (received : List Call) (e : Entry) : Prop :=
  e.timestamp < 2147483648 ∧ (e.hostname ≠ [] → ∃ c ∈ received, Source e.hostname e.addr e.timestamp c)

structure Inv (w : World) : Prop where
  clock_nonneg : 0 ≤ w.clock
  sourced : ∀ e ∈ w.cache.entries, Sourced w.received e

theorem sourced_empty (received : List Call) : Sourced received emptyEntry := ⟨by decide, fun h => absurd rfl h⟩

theorem Inv.initial : Inv World.initial := by
  refine ⟨Int.le_refl 0, fun e he => ?_⟩
  rw [List.eq_of_mem_replicate he]
  exact sourced_empty []

theorem Sourced.cons {received : List Call} {e : Entry} (h : Sourced received e) (c : Call) : Sourced (c :: received) e := by
  refine ⟨h.1, fun hne => ?_⟩
  obtain ⟨c', hc', hsource⟩ := h.2 hne
  exact ⟨c', List.mem_cons_of_mem c hc', hsource⟩

theorem Source.earlier {name addr : List UInt8} {time time' : Int} {c : Call} (h : Source name addr time c) (hle : time' ≤ time) :
    Source name addr time' c := by
  obtain ⟨hname, m, hm, r, hr, haddr, htime⟩ := h
  exact ⟨hname, m, hm, r, hr, haddr, hle.trans htime⟩

section

variable {R : List UInt8 → Message → Prop} {w : World} {c : Call}

theorem Inv.sourced_clean (h : Inv w) (t : Int) : ∀ e ∈ (w.cache.clean t).entries, Sourced w.received e := by
  intro e he
  obtain ⟨e', he', rfl⟩ := List.mem_map.mp he
  rw [Cache.cleanEntry]
  split
  · exact sourced_empty w.received
  · exact h.sourced e' he'

theorem newEntry_sourced (hnow : 0 ≤ c.now) (hname : c.name.length < hostnameSize) {m : Message} (hm : c.response = some m)
    (hdirect : Direct c.name m) (received : List Call) : Sourced (c :: received) (newEntry c (answer m c.stale)) := by
  obtain ⟨r, hr, haddr, htime⟩ := newEntry_direct hnow hdirect
  have hcopy : (newEntry c (answer m c.stale)).hostname = c.name := List.take_of_length_le hname.le
  exact ⟨int32_upper _, fun _ => ⟨c, List.mem_cons_self, hcopy.symm, m, hm, r, hr, haddr, htime⟩⟩

theorem Inv.call (h : Inv w) (henv : Env R w c) (hdirect : ∀ m, c.response = some m → Direct c.name m) : Inv (w.call c) := by
  have hnow : 0 ≤ c.now := (h.clock_nonneg.trans henv.clock_le).trans henv.t_le
  refine ⟨hnow, ?_⟩
  rcases resolveIpByName_cases w.cache c with ⟨cache', hcache, hres⟩ | ⟨e, -, hres⟩ | ⟨m, hm, hres⟩
  · intro e he
    simp only [World.call, hres] at he ⊢
    rcases hcache with rfl | rfl
    · exact h.sourced e he
    · exact h.sourced_clean c.t e he
  · intro e he
    simp only [World.call, hres] at he ⊢
    exact h.sourced_clean c.t e he
  · intro e he
    simp only [World.call, hres] at he ⊢
    rcases Cache.mem_store he with rfl | he
    · exact newEntry_sourced hnow henv.name_lt hm (hdirect m hm) w.received
    · exact (h.sourced_clean c.t e he).cons c

theorem Inv.real (h : Inv w) (henv : Env R w c) (hdirect : ∀ m, c.response = some m → Direct c.name m) {addr : List UInt8}
    (haddr : (resolveIpByName w.cache c).addr = some addr) :
    ∃ c' ∈ (w.call c).received, Source c.name addr (answerTime w c) c' := by
  have hnow : 0 ≤ c.now := (h.clock_nonneg.trans henv.clock_le).trans henv.t_le
  rcases resolveIpByName_cases w.cache c with ⟨cache', -, hres⟩ | ⟨e, hsearch, hres⟩ | ⟨m, hm, hres⟩
  · rw [hres] at haddr
    cases haddr
  · rw [hres] at haddr
    cases haddr
    obtain ⟨he, hne, hname⟩ := Cache.search_some hsearch
    obtain ⟨hmem, halive⟩ := Cache.mem_clean he hne
    obtain ⟨c', hc', hsource⟩ := (h.sourced e hmem).2 hne
    refine ⟨c', ?_, ?_⟩
    · simpa [World.call, hres] using hc'
    · simp only [answerTime, hres]
      exact hname ▸ hsource.earlier halive
  · rw [hres] at haddr
    cases haddr
    -- the lifetime is still whole when the response comes
    obtain ⟨r, hr, haddr, -⟩ := newEntry_direct hnow (hdirect m hm)
    refine ⟨c, ?_, rfl, m, hm, r, hr, haddr, ?_⟩
    · simp [World.call, hres]
    · simp [answerTime, hres]

theorem Inv.replaces (h : Inv w) (henv : Env R w c) : ReplacesOldest w c := by
  intro hcode hfull
  rcases resolveIpByName_cases w.cache c with ⟨cache', -, hres⟩ | ⟨e, -, hres⟩ | ⟨m, -, hres⟩
  · rw [hres] at hcode
    cases hcode
  · rw [hres] at hcode
    cases hcode
  · have ht : 0 ≤ c.t := h.clock_nonneg.trans henv.clock_le
    have hall : ∀ e ∈ (w.cache.clean c.t).entries, e.hostname ≠ [] ∧ c.t ≤ e.timestamp ∧ e.timestamp < 2147483648 := by
      intro e he
      exact ⟨hfull e he, (Cache.mem_clean he (hfull e he)).2, (h.sourced_clean c.t e he).1⟩
    obtain ⟨old, hold, holdest⟩ := Cache.slot_oldest ht hall
    refine ⟨_, old, newEntry c (answer m c.stale), hold, ?_, fun e he => Int.sub_le_sub_right (holdest e he) c.t⟩
    rw [hres]
    rfl

end

/-- All four bytes at `o` follow the byte that the addresses are made of. -/
def Follows (f : UInt8 → Nat → UInt8) (o : Nat) : Prop := ∀ x, ∀ k < 4, f x (o + k) = x

theorem Follows.varies {f : UInt8 → Nat → UInt8} {o k : Nat} (h : Follows f o) (hk : k < 4) : f 1 (o + k) ≠ f 2 (o + k) := by
  rw [h 1 k hk, h 2 k hk]
  decide

theorem Follows.skip {F : List UInt8} {f : UInt8 → Nat → UInt8} {o : Nat} (h : Follows (fun x => memory F (f x)) o) :
    ∃ o', o = F.length + o' ∧ Follows f o' := by
  have hle : F.length ≤ o := by
    by_contra hlt
    exact h.varies (by decide : 0 < 4) (memory_inside (Nat.lt_of_not_le hlt))
  obtain ⟨o', rfl⟩ := Nat.exists_eq_add_of_le hle
  refine ⟨o', rfl, fun x k hk => ?_⟩
  have hbyte : memory F (f x) (F.length + o' + k) = x := h x k hk
  rwa [Nat.add_assoc, memory_behind] at hbyte

def sameBytes (x : UInt8) : Vector UInt8 4 := Vector.replicate 4 x

def filled (rs : List Record) (x : UInt8) : List UInt8 := (rs.map (Record.fill 0 (sameBytes x))).flatMap Record.bytes

theorem head_filled (r : Record) (x : UInt8) : (r.fill 0 (sameBytes x)).head = (r.fill 0 (sameBytes 0)).head := by
  have hlen := (Data.length_fill (sameBytes x) r.data).trans (Data.length_fill (sameBytes 0) r.data).symm
  simp [Record.head, Record.fill, Data.type_fill, hlen]

theorem memory_filled (r : Record) (rs : List Record) (x : UInt8) (behind : Nat → UInt8) :
    memory (filled (r :: rs) x) behind = memory (r.fill 0 (sameBytes 0)).head
      (memory (r.data.fill (sameBytes x)).bytes (memory (filled rs x) behind)) := by
  rw [← memory_append, ← memory_append, ← head_filled r x]
  rfl

theorem filled_start (rs : List Record) (behind : Nat → UInt8) (x y : UInt8) :
    memory (filled rs x) behind 0 = memory (filled rs y) behind 0 := by
  cases rs with
  | nil => rfl
  | cons r rs =>
      have hpos : 0 < (r.fill 0 (sameBytes 0)).head.length := by
        rw [Record.length_head]
        omega
      rw [memory_filled, memory_filled]
      exact memory_inside hpos

theorem follows_address {rs : List Record} {behind : Nat → UInt8} {o : Nat}
    (h : Follows (fun x => memory (filled rs x) behind) o) :
    ∃ before r after, rs = before ++ r :: after ∧ (∃ addr, r.Address addr) ∧
      o = (before.flatMap Record.bytes).length + r.owner.bytes.length + 10 := by
  induction rs generalizing o with
  | nil => exact absurd rfl (h.varies (by decide : 0 < 4))
  | cons r rs ih =>
      simp only [memory_filled] at h
      obtain ⟨o', rfl, hdata⟩ := h.skip
      have hhead : (r.fill 0 (sameBytes 0)).head.length = r.owner.bytes.length + 10 := Record.length_head _
      -- what is left when a place behind the record is found
      have hnext {o'' : Nat} (hrest : Follows (fun x => memory (filled rs x) behind) o'') (ho : o' = r.data.bytes.length + o'') :
          ∃ before r' after, r :: rs = before ++ r' :: after ∧ (∃ addr, r'.Address addr) ∧
            (r.fill 0 (sameBytes 0)).head.length + o' =
              (before.flatMap Record.bytes).length + r'.owner.bytes.length + 10 := by
        obtain ⟨before, r', after, hrs, haddr, hplace⟩ := ih hrest
        refine ⟨r :: before, r', after, by rw [hrs, List.cons_append], haddr, ?_⟩
        have hlen := r.length_head
        rw [List.flatMap_cons, List.length_append, Record.bytes, List.length_append]
        omega
      cases hd : r.data with
      | a v =>
          have hv : r.data.bytes.length = 4 := by rw [hd, Data.bytes, v.length_toList]
          have hbehind (x : UInt8) (k : Nat) : memory (r.data.fill (sameBytes x)).bytes (memory (filled rs x) behind) (4 + k) =
              memory (filled rs x) behind k := by
            rw [← hv, ← Data.length_fill (sameBytes x) r.data]
            exact memory_behind _ _ k
          rcases Nat.lt_or_ge o' 4 with hlt | hge
          · cases o' with
            | zero => exact ⟨[], r, rs, rfl, ⟨v.toList, v, hd, rfl⟩, by simp [hhead]⟩
            | succ o' =>
                -- the place would go on into the next record
                have hnot := hdata.varies (show 3 - o' < 4 by omega)
                rw [show o' + 1 + (3 - o') = 4 + 0 by omega, hbehind, hbehind] at hnot
                exact absurd (filled_start rs behind 1 2) hnot
          · obtain ⟨o'', rfl⟩ := Nat.exists_eq_add_of_le hge
            refine hnext (fun x k hk => ?_) (by rw [hv])
            have hbyte := hdata x k hk
            rw [Nat.add_assoc] at hbyte
            exact (hbehind x (o'' + k)).symm.trans hbyte
      | cname target =>
          simp only [hd, Data.fill] at hdata
          obtain ⟨o'', ho, hrest⟩ := hdata.skip
          exact hnext hrest (by rw [hd, ho])
      | other type rdata hother =>
          simp only [hd, Data.fill] at hdata
          obtain ⟨o'', ho, hrest⟩ := hdata.skip
          exact hnext hrest (by rw [hd, ho])

theorem answer_fill (m : Message) (x : UInt8) (k : Nat) :
    answer (m.fill 0 (sameBytes x)) (fun _ => 0) k =
      memory m.head (memory (filled m.answers x) (memory (m.others.flatMap Record.bytes) fun _ => 0)) k := by
  have hbytes : (m.fill 0 (sameBytes x)).bytes = m.head ++ filled m.answers x ++ m.others.flatMap Record.bytes := by
    rw [Message.bytes, Message.head_fill, List.append_assoc]
    rfl
  rw [← memory_append, ← memory_append, answer, hbytes, memory]
  by_cases hk : k < (m.head ++ filled m.answers x ++ m.others.flatMap Record.bytes).length
  · rw [patch_inside _ _ _ _ (by omega) (by omega), Int.sub_zero, Int.toNat_natCast]
    rfl
  · rw [patch_outside _ _ _ _ (by omega), List.getD_eq_default _ _ (by omega)]

theorem direct_of_follows {name : List UInt8} {m : Message} (hspells : Spells name m.question)
    (h : Follows (fun x k => answer (m.fill 0 (sameBytes x)) (fun _ => 0) k) (addrPtr name)) : Direct name m := by
  simp only [answer_fill] at h
  obtain ⟨o, ho, hanswers⟩ := h.skip
  obtain ⟨before, r, after, hsplit, haddr, hplace⟩ := follows_address hanswers
  have hhead := m.length_head
  have hname : name.length ≤ m.questionName.bytes.length := hspells.length_le
  cases before with
  | nil =>
      refine ⟨r, after, hsplit, haddr, ?_⟩
      rw [addrPtr, ttlPtr] at ho
      simp at hplace
      omega
  | cons r' before =>
      -- the first record alone takes more room than the code leaves for it
      have hlen : 10 ≤ r'.bytes.length := by
        rw [Record.bytes, List.length_append, Record.length_head]
        omega
      rw [List.flatMap_cons, List.length_append] at hplace
      rw [addrPtr, ttlPtr] at ho
      omega

def firstCall (hostname : Str) (m : Message) : Call := ⟨hostname, false, 0, 0, some m, fun _ => 0⟩

theorem firstCall_addr (hostname : Str) (m : Message) :
    resolveIpByName Cache.initial (firstCall hostname m) =
      ⟨0, some (readBytes (answer m fun _ => 0) (addrPtr hostname.chars) 4),
        (Cache.initial.clean 0).store ((Cache.initial.clean 0).slot 0) (newEntry (firstCall hostname m) (answer m fun _ => 0))⟩ := by
  rfl

theorem firstCall_good {hostname : Str} {m : Message} (h : Good World.initial (firstCall hostname m)) :
    ∃ r ∈ m.answers, r.Address (readBytes (answer m fun _ => 0) (addrPtr hostname.chars) 4) := by
  have hres := firstCall_addr hostname m
  obtain ⟨c', hc', hsource⟩ := h.real _ (congrArg Outcome.addr hres)
  have hreceived : (World.initial.call (firstCall hostname m)).received = [firstCall hostname m] := by
    have hcode : (resolveIpByName World.initial.cache (firstCall hostname m)).code = 0 := congrArg Outcome.code hres
    simp only [World.call, hcode, if_true]
    rfl
  rw [hreceived, List.mem_singleton] at hc'
  subst hc'
  obtain ⟨m', hm', r, hr, haddr, -⟩ := hsource.record
  obtain rfl : m = m' := Option.some.inj hm'
  exact ⟨r, hr, haddr⟩

theorem firstCall_env {R : List UInt8 → Message → Prop} {hostname : Str} {m : Message} (hname : hostname.chars.length < hostnameSize)
    (hm : Answers hostname.chars answerSize m) (hR : R hostname.chars m.blank) :
    Env R World.initial (firstCall hostname m) := by
  refine ⟨Int.le_refl 0, Int.le_refl 0, (by decide : (0 : Int) < 2147483648), hname, fun m' hm' => ?_⟩
  obtain rfl : m = m' := Option.some.inj hm'
  exact ⟨hm, hR⟩

theorem address_filled {rs : List Record} {x : UInt8} {r : Record} (hr : r ∈ rs.map (Record.fill 0 (sameBytes x))) {addr : List UInt8}
    (h : r.Address addr) : addr = List.replicate 4 x := by
  obtain ⟨v, hv, rfl⟩ := h
  obtain ⟨⟨owner, ttl, data⟩, -, rfl⟩ := List.mem_map.mp hr
  cases data with
  | a v' =>
      cases hv
      simp [sameBytes]
  | cname target => cases hv
  | other type rdata hother => cases hv

/-- The resolver works with a name server, whatever lifetimes and addresses
there are in its answers, exactly if all its answers are direct. -/
theorem resolver_correct_iff (R : List UInt8 → Message → Prop) :
    (∀ calls, Along World.call (Env R) World.initial calls → Along World.call Good World.initial calls) ↔
      ∀ (hostname : Str) (m : Message), hostname.chars.length < hostnameSize → Answers hostname.chars answerSize m →
        R hostname.chars m.blank → Direct hostname.chars m := by
  constructor
  · intro hgood hostname m hname hm hR
    have hfollows : Follows (fun x k => answer (m.fill 0 (sameBytes x)) (fun _ => 0) k) (addrPtr hostname.chars) := by
      intro x k hk
      have hR' : R hostname.chars (m.fill 0 (sameBytes x)).blank := (m.blank_fill 0 (sameBytes x)).symm ▸ hR
      have henv := firstCall_env hname (hm.fill 0 (sameBytes x)) hR'
      obtain ⟨r, hr, haddr⟩ := firstCall_good (hgood [firstCall hostname (m.fill 0 (sameBytes x))] ⟨henv, trivial⟩).1
      have hbyte : answer (m.fill 0 (sameBytes x)) (fun _ => 0) (addrPtr hostname.chars + k) ∈
          readBytes (answer (m.fill 0 (sameBytes x)) fun _ => 0) (addrPtr hostname.chars) 4 :=
        List.mem_map_of_mem (f := fun k : Nat => answer _ _ (addrPtr hostname.chars + k)) (List.mem_range.mpr hk)
      rw [address_filled hr haddr] at hbyte
      exact List.eq_of_mem_replicate hbyte
    exact direct_of_follows hm.spells hfollows
  · intro hdirect calls henv
    apply Along.of_invariant (I := Inv) (C := fun _ _ => True) _ _ Inv.initial henv (Along.of_forall (fun _ _ => trivial) _ _)
    · intro w c h he _
      have hd : ∀ m, c.response = some m → Direct c.name m := fun m hm =>
        hdirect c.hostname m he.name_lt (he.responses m hm).1 (he.responses m hm).2
      exact ⟨fun addr haddr => h.real he hd haddr, h.replaces he⟩
    · intro w c h he _
      exact h.call he fun m hm => hdirect c.hostname m he.name_lt (he.responses m hm).1 (he.responses m hm).2

theorem direct_iff_pointer {m : Message} (hne : m.question ≠ []) :
    Direct (dotted m.question) m ↔
      ∃ r rest target, m.answers = r :: rest ∧ (∃ addr, r.Address addr) ∧ r.owner = ⟨[], .pointer target⟩ := by
  have hlen := length_dotted hne
  have hquestion : m.questionName.bytes.length = (dotted m.question).length + 2 := by
    rw [Message.questionName, Name.length_bytes_root]
    omega
  constructor
  · rintro ⟨r, rest, hanswers, haddr, hsize⟩
    have howner : r.owner.bytes.length = 2 := by omega
    obtain ⟨⟨labels, ending⟩, ttl, data⟩ := r
    cases labels with
    | nil =>
        cases ending with
        | root => cases howner
        | pointer target => exact ⟨_, rest, target, hanswers, haddr, rfl⟩
    | cons l ls =>
        -- a label takes two bytes, and the name still has to end
        have hl := l.length_pos
        have hend : 0 < (Name.bytes ⟨ls, ending⟩).length := List.length_pos_iff.mpr (Name.bytes_ne_nil _)
        simp only [Name.bytes, List.flatMap_cons, List.append_assoc, List.length_append, Label.bytes, List.length_cons] at howner hend
        omega
  · rintro ⟨r, rest, target, hanswers, haddr, howner⟩
    refine ⟨r, rest, hanswers, haddr, ?_⟩
    have hpointer : r.owner.bytes.length = 2 := by
      rw [howner]
      rfl
    omega

def labelA : Label := ⟨[97], by decide, by decide⟩

def labelB : Label := ⟨[98], by decide, by decide⟩

/-- The name `a` is another name of `b`, which has the address 10.0.0.1. -/
def aliasResponse : Message where
  id := 1
  flags := 0x8180
  question := [labelA]
  answers :=
    [⟨⟨[], .pointer 12⟩, 60, .cname ⟨[labelB], .root⟩⟩, ⟨⟨[], .pointer 31⟩, 60, .a ⟨#[10, 0, 0, 1], rfl⟩⟩]
  authority := []
  additional := []

/-- The name `a` has the address 10.0.0.1, and the answer repeats the name. -/
def repeatedResponse : Message where
  id := 1
  flags := 0x8180
  question := [labelA]
  answers := [⟨⟨[labelA], .root⟩, 60, .a ⟨#[10, 0, 0, 1], rfl⟩⟩]
  authority := []
  additional := []

def hostA : Str := ⟨[97], by decide⟩

theorem resolver_wrong_address :
    (Along World.call (Env fun _ _ => True) World.initial [firstCall hostA aliasResponse] ∧
      ¬ Along World.call Good World.initial [firstCall hostA aliasResponse]) ∧
    Along World.call (Env fun _ _ => True) World.initial [firstCall hostA repeatedResponse] ∧
      ¬ Along World.call Good World.initial [firstCall hostA repeatedResponse] := by
  have haliasAnswers : Answers hostA.chars answerSize aliasResponse :=
    ⟨.inl rfl, by decide, by decide, _, List.mem_cons_of_mem _ List.mem_cons_self, _, _, rfl, rfl⟩
  have hrepeatedAnswers : Answers hostA.chars answerSize repeatedResponse :=
    ⟨.inl rfl, by decide, by decide, _, List.mem_cons_self, _, _, rfl, rfl⟩
  have haliasRead : readBytes (answer aliasResponse fun _ => 0) (addrPtr hostA.chars) 4 = [1, 98, 0, 192] := by decide
  have hrepeatedRead : readBytes (answer repeatedResponse fun _ => 0) (addrPtr hostA.chars) 4 = [4, 10, 0, 0] := by decide
  refine ⟨⟨⟨firstCall_env (by decide) haliasAnswers trivial, trivial⟩, fun h => ?_⟩,
    ⟨firstCall_env (by decide) hrepeatedAnswers trivial, trivial⟩, fun h => ?_⟩
  · obtain ⟨r, hr, v, hv, hread⟩ := firstCall_good h.1
    rw [haliasRead] at hread
    rcases List.mem_cons.mp hr with rfl | hr
    · cases hv
    · obtain rfl := List.mem_singleton.mp hr
      cases hv
      exact absurd hread (by decide)
  · obtain ⟨r, hr, v, hv, hread⟩ := firstCall_good h.1
    rw [hrepeatedRead] at hread
    obtain rfl := List.mem_singleton.mp hr
    cases hv
    exact absurd hread (by decide)

end AliceModem.Resolve
