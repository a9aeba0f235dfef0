import AliceModem.Flash.SpiFlash

namespace AliceModem.SpiPage

open Words ByteMemory SerialFlash Transition SpiFlash

section

variable (k : Kind)

/-- The page program loop of `spi_flash_write` with a message buffer of `msgData` bytes. -/
def pageWrite (msgData : Int) (fuel : Nat) (buf : Int) (s : Call) : Option (Int × Chip) :=
  (whileLoop (fun s => 0 < s.nbytes) (pageStep k (msgData - cmdLen4)) fuel s).map fun s => (int32 (s.pbuf - buf), s.chip)

/-- A page program command, with the address that `dst` would have if it did not wrap around. -/
structure Program where
  dst : Int
  data : List UInt8

def Program.send (c : Chip) (p : Program) : Chip :=
  (spiFlashUb k c).receive k (prog :: (addressBytes p.dst ++ p.data))

def Program.command (p : Program) : Command := ⟨true, p.dst % 16777216 % k.size, p.data⟩

end

def Chain : Int → List Program → Int → Prop
  | a, [], e => a = e
  | a, p :: ps, e => p.dst = a ∧ Chain (a + p.data.length) ps e

structure Program.Fits (msgData : Int) (p : Program) : Prop where
  pos : 1 ≤ p.data.length
  le : (p.data.length : Int) ≤ msgData - 4
  page : p.dst % 256 + p.data.length ≤ 256

section Loop

variable {k : Kind}

theorem addressBytes_uint32 {a : Int} (h : 0 ≤ a) : addressBytes (uint32 a) = addressBytes a := by
  have hcast := cast_uint32 a
  simp only [addressBytes, List.cons.injEq, and_true, ← UInt8.toNat_inj, UInt8.toNat_ofNat']
  omega

theorem log_send (c : Chip) {p : Program} (h : 0 ≤ p.dst) : (p.send k c).log = c.log ++ [p.command k] := by
  have haddr : k.address (UInt8.ofNat (p.dst.toNat / 65536)) (UInt8.ofNat (p.dst.toNat / 256)) (UInt8.ofNat p.dst.toNat) =
      p.dst % 16777216 % k.size := by
    rw [Kind.address]
    congr 1
    simp only [UInt8.toNat_ofNat']
    omega
  change c.log ++ [⟨true, _, p.data⟩] = _
  rw [haddr]
  rfl

theorem maxwrite_bounds {s : Call} {limit a : Int} {r : Nat} (hlimit : 1 ≤ limit) (hn : s.nbytes = r) (hr : 1 ≤ r)
    (hr' : r < 2147483648) (hdst : s.dst = uint32 a) :
    ∃ w : Nat, maxwrite limit s = w ∧ 1 ≤ w ∧ w ≤ r ∧ (w : Int) ≤ limit ∧ a % 256 + w ≤ 256 := by
  have hlow : s.dst % 256 = a % 256 := by
    have hcast := cast_uint32 a
    omega
  rw [maxwrite_eq limit hn hr', hlow]
  exact ⟨(min (min (r : Int) limit) (256 - a % 256)).toNat, by omega, by omega⟩

theorem pageLoop_ends {s : Call} {msgData a : Int} {r : Nat} (hmsg : 5 ≤ msgData) (hn : s.nbytes = r) (hr : r < 2147483648)
    (ha : 0 ≤ a) (hdst : s.dst = uint32 a) :
    ∃ s' ps, Ends (fun s : Call => 0 < s.nbytes) (pageStep k (msgData - cmdLen4)) s s' ∧ s'.pbuf = s.pbuf + r ∧
      s'.chip = ps.foldl (Program.send k) s.chip ∧ s'.chip.log = s.chip.log ++ ps.map (Program.command k) ∧
      (∀ p ∈ ps, p.Fits msgData) ∧ Chain a ps (a + r) ∧ ps.flatMap Program.data = readBytes s.host s.pbuf r := by
  induction r using Nat.strong_induction_on generalizing s a with
  | _ r ih =>
      rcases Nat.eq_zero_or_pos r with rfl | hpos
      · exact ⟨s, [], .stop (by rw [hn]; rfl), by simp, rfl, by simp, by simp, by simp [Chain], rfl⟩
      · have hlimit : 1 ≤ msgData - cmdLen4 := by
          rw [cmdLen4]
          omega
        obtain ⟨w, hw, h1, hwr, hwl, hpage⟩ := maxwrite_bounds hlimit hn hpos hr hdst
        -- the first round sends the first `w` bytes
        let p : Program := ⟨a, readBytes s.host s.pbuf w⟩
        have hlen : p.data.length = w := length_readBytes ..
        have hchip : (pageStep k (msgData - cmdLen4) s).chip = p.send k s.chip := by
          simp only [pageStep, hw, Call.advance, Call.send, Int.toNat_natCast, hdst, addressBytes_uint32 ha]
          rfl
        have hstep : (pageStep k (msgData - cmdLen4) s).pbuf = s.pbuf + w ∧
            (pageStep k (msgData - cmdLen4) s).nbytes = ((r - w : Nat) : Int) ∧
            (pageStep k (msgData - cmdLen4) s).dst = uint32 (a + w) ∧
            (pageStep k (msgData - cmdLen4) s).host = s.host := by
          simp only [pageStep, hw, Call.advance, Call.send, hn, hdst]
          have hsub := int32_of_range (z := (r : Int) - w) (by omega) (by omega)
          have ha32 := cast_uint32 a
          have hnext := cast_uint32 (a + w)
          have hnext' := cast_uint32 (uint32 a + w)
          refine ⟨trivial, by omega, by omega, trivial⟩
        obtain ⟨hpbuf, hnbytes, hdst', hhost⟩ := hstep
        obtain ⟨s', ps, hends, hptr, hsent, hlog, hfits, hchain, hdata⟩ :=
          ih (r - w) (by omega) hnbytes (by omega) (by omega) hdst'
        refine ⟨s', p :: ps, .round (by rw [hn]; exact decide_eq_true (by omega)) hends, ?_, ?_, ?_, ?_, ?_, ?_⟩
        · rw [hptr, hpbuf]
          omega
        · rw [hsent, hchip]
          rfl
        · rw [hlog, hchip, log_send s.chip (p := p) ha]
          simp
        · rw [List.forall_mem_cons]
          exact ⟨⟨by omega, by rw [hlen]; exact hwl, by rw [hlen]; exact hpage⟩, hfits⟩
        · refine ⟨rfl, ?_⟩
          rw [hlen]
          have hend : a + w + (r - w : Nat) = a + r := by omega
          rwa [hend] at hchain
        · rw [List.flatMap_cons, hdata, hhost, hpbuf, ← readBytes_append]
          congr 1
          omega

end Loop

def Paged (p : Part) : Prop := p.family = .atmel ∨ p.family = .amd ∨ p.family = .span ∨ p.family = .kh

theorem spiFlashWrite_paged (k : Kind) {p : Part} (h : Paged p) (fuel sector offset : Nat) (host : Mem UInt8)
    (buf btmp2 nbytes : Int) (c : Chip) :
    spiFlashWrite k p fuel sector offset host buf btmp2 nbytes c =
      pageWrite k spiMsgData fuel buf ⟨c, host, buf, nbytes, uint32 (flashBase + p.base sector + offset)⟩ := by
  rw [spiFlashWrite]
  rcases h with h | h | h | h <;> rw [h] <;> rfl

/-- Page programming covers the request with commands for consecutive ranges, none of them longer than a
message or beyond a page, for every size of the message buffer. -/
theorem page_program_covers (k : Kind) {msgData : Int} (hmsg : 5 ≤ msgData) (c : Chip) (host : Mem UInt8) (buf : Int)
    {n : Nat} (hn : n < 2147483648) {dst : Int} (hdst : 0 ≤ dst ∧ dst < 4294967296) :
    (∃ fuel c' ps, pageWrite k msgData fuel buf ⟨c, host, buf, n, dst⟩ = some ((n : Int), c') ∧
      c' = ps.foldl (Program.send k) c ∧ c'.log = c.log ++ ps.map (Program.command k) ∧ (∀ p ∈ ps, p.Fits msgData) ∧
      Chain dst ps (dst + n) ∧ ps.flatMap Program.data = readBytes host buf n) ∧
    ∀ p : Part, Paged p → ∀ (fuel sector offset : Nat) (btmp2 : Int),
      spiFlashWrite k p fuel sector offset host buf btmp2 n c =
        pageWrite k spiMsgData fuel buf ⟨c, host, buf, n, uint32 (flashBase + p.base sector + offset)⟩ := by
  have hdst32 := uint32_of_range hdst.1 hdst.2
  obtain ⟨s', ps, ⟨fuel, hloop⟩, hptr, hsent, hlog, hfits, hchain, hdata⟩ :=
    pageLoop_ends (k := k) (s := ⟨c, host, buf, n, dst⟩) hmsg rfl hn hdst.1 hdst32.symm
  refine ⟨⟨fuel, s'.chip, ps, ?_, hsent, hlog, hfits, hchain, hdata⟩, fun p hp fuel sector offset btmp2 =>
    spiFlashWrite_paged k hp fuel sector offset host buf btmp2 n c⟩
  have hret : int32 (s'.pbuf - buf) = n := by
    rw [hptr, add_sub_cancel_left, int32_of_range (by omega) (by omega)]
  rw [pageWrite, hloop, Option.map_some, hret]

theorem page_program_covers_three :
    ∃ fuel c' ps, pageWrite ⟨65536, false⟩ 63 fuel 0x1000 ⟨⟨fun _ => 0xff, false, none, []⟩, fun _ => 7, 0x1000, 3, 0xbfc000ff⟩ =
        some (3, c') ∧ c'.log = ps.map (Program.command ⟨65536, false⟩) ∧ (∀ p ∈ ps, p.Fits 63) ∧
      Chain 0xbfc000ff ps 0xbfc00102 := by
  have hmsg : (5 : Int) ≤ 63 := by decide
  have hdst : (0 : Int) ≤ 0xbfc000ff ∧ (0xbfc000ff : Int) < 4294967296 := by decide
  obtain ⟨⟨fuel, c', ps, hret, -, hlog, hfits, hchain, -⟩, -⟩ :=
    page_program_covers ⟨65536, false⟩ hmsg ⟨fun _ => 0xff, false, none, []⟩ (fun _ => 7) 0x1000 (n := 3) (by decide) hdst
  exact ⟨fuel, c', ps, hret, hlog, hfits, hchain⟩

end AliceModem.SpiPage
