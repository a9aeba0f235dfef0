import AliceModem.Bridge.SnoopTable
import AliceModem.Lib.Transition

namespace AliceModem.TableRows

open Snooping SnoopTable Transition

variable {Port : Type} [DecidableEq Port]

/-- No row is there twice, none is for the UPnP group, and no source is both included and excluded. -/
structure Unambiguous (br : Bridge Port) : Prop where
  nodup : (keys br).Nodup
  upnp : ∀ k ∈ keys br, k.addr ≠ upnpAddr
  modes : ∀ prt dest host src, src ≠ 0 → ⟨prt, dest, host, src, .mcastInclude⟩ ∈ keys br →
    ⟨prt, dest, host, src, .mcastExclude⟩ ∉ keys br

inductive Event (Port : Type)
  | frame (snooping : Nat) (jiffies : UInt32) (skb : Skb Port)
  | timeout (jiffies : UInt32)

def step (br : Bridge Port) : Event Port → Bridge Port
  | .frame snooping jiffies skb => (mcForward snooping jiffies br skb).bridge
  | .timeout jiffies => queryTimeout jiffies br

variable {br br' : Bridge Port} {prt : Port} {dest host : Mac} {src : Ip}

omit [DecidableEq Port] in
theorem Unambiguous.sublist (h : Unambiguous br) (hs : (keys br').Sublist (keys br)) : Unambiguous br' :=
  ⟨h.nodup.sublist hs, fun k hk => h.upnp k (hs.subset hk), fun prt dest host src h0 hin hex =>
    h.modes prt dest host src h0 (hs.subset hin) (hs.subset hex)⟩

theorem Unambiguous.remove (h : Unambiguous br) (prt : Option Port) (dest host : Mac) {mode : UInt8}
    (hmode : mode = snoopInClear ∨ mode = snoopExClear) (src : Ip) :
    Unambiguous (brMcFdbRemove br prt dest host mode src) := by
  cases prt with
  | none => exact h
  | some prt =>
      apply h.sublist
      rw [keys_remove br prt dest host hmode src]
      exact List.erase_sublist

omit [DecidableEq Port] in
theorem Unambiguous.append (h : Unambiguous br) {k : Key Port} (hnew : k ∉ keys br) (hupnp : k.addr ≠ upnpAddr)
    (hother : k.src ≠ 0 → ⟨k.dst, k.addr, k.host, k.src, opposite k.filtMode⟩ ∉ keys br)
    (hkeys : keys br' = keys br ++ [k]) : Unambiguous br' := by
  have hmem (q : Key Port) : q ∈ keys br' ↔ q ∈ keys br ∨ q = k := by rw [hkeys, List.mem_append, List.mem_singleton]
  refine ⟨?_, fun q hq => ?_, fun prt dest host src h0 hin hex => ?_⟩
  · rw [hkeys]
    exact h.nodup.append (List.nodup_singleton k) (List.disjoint_singleton.mpr hnew)
  · rcases (hmem q).mp hq with hq | rfl
    · exact h.upnp q hq
    · exact hupnp
  · rcases (hmem _).mp hin with hin | rfl
    · rcases (hmem _).mp hex with hex | rfl
      · exact h.modes prt dest host src h0 hin hex
      · exact hother h0 hin
    · rcases (hmem _).mp hex with hex | hex
      · exact hother h0 hex
      · cases congrArg Key.filtMode hex

theorem Unambiguous.add (h : Unambiguous br) (jiffies : UInt32) (prt : Option Port) (dest host : Mac) {mode : UInt8}
    (hmode : mode = snoopInAdd ∨ mode = snoopExAdd) (src : Ip)
    (hother : src ≠ 0 → ∀ p, prt = some p → ⟨p, dest, host, src, opposite (addMode mode)⟩ ∉ keys br) :
    Unambiguous (brMcFdbAdd jiffies br prt dest host mode src) := by
  cases prt with
  | none => exact h
  | some prt =>
      rcases keys_add_cases jiffies br prt dest host mode src hmode with hkeys | ⟨hdest, hk, hkeys⟩
      · apply h.sublist
        rw [hkeys]
      · exact h.append hk hdest (fun h0 => hother h0 prt rfl) hkeys

theorem Unambiguous.find (h : Unambiguous br) (h0 : src ≠ 0) {m : FiltMode}
    (hm : ⟨prt, dest, host, src, m⟩ ∈ keys br) : findMode (some prt) host br dest src = some m := by
  obtain ⟨m', hf⟩ := findMode_of_mem hm
  have hm' := findMode_some hf
  rw [hf]
  cases m with
  | mcastExclude =>
      cases m' with
      | mcastExclude => rfl
      | mcastInclude => exact absurd hm (h.modes prt dest host src h0 hm')
  | mcastInclude =>
      cases m' with
      | mcastExclude => exact absurd hm' (h.modes prt dest host src h0 hm)
      | mcastInclude => rfl

theorem Unambiguous.changeSource (h : Unambiguous br) (jiffies : UInt32) (prt : Option Port) (host dest : Mac)
    {other : FiltMode} {clear add : UInt8} (hclear : clear = snoopInClear ∨ clear = snoopExClear)
    (hadd : add = snoopInAdd ∨ add = snoopExAdd) (hmode : opposite (addMode add) = other) (src : Ip) :
    Unambiguous (changeSource jiffies prt host other clear add dest br src) := by
  rw [Snooping.changeSource]
  split
  next => exact h.remove prt dest host hclear src
  next hf =>
    refine h.add jiffies prt dest host hadd src fun h0 p hp hk => hf ?_
    rw [hp, h.find h0 hk, hmode]

theorem unambiguous_respects (jiffies : UInt32) (prt : Option Port) (host : Mac) :
    Respects (fun br br' => Unambiguous br → Unambiguous br') jiffies prt host where
  refl _ := id
  trans _ _ _ h h' := h' ∘ h
  includes dest _ src h := h.changeSource jiffies prt host dest (.inr rfl) (.inl rfl) rfl src
  excludes dest _ src h := h.changeSource jiffies prt host dest (.inl rfl) (.inr rfl) rfl src
  joins dest _ h := h.add jiffies prt dest host (.inr rfl) 0 fun h0 => absurd rfl h0
  leaves dest _ h := h.remove prt dest host (.inr rfl) 0

theorem Unambiguous.step (h : Unambiguous br) (e : Event Port) : Unambiguous (step br e) := by
  cases e with
  | frame snooping jiffies skb =>
      exact (unambiguous_respects jiffies skb.brPort skb.hSource).mcForward
        (fun _ _ h => ⟨h.nodup, h.upnp, h.modes⟩) snooping br h
  | timeout jiffies => exact h.sublist (List.filter_sublist.map keyOf)

/-- From an empty table on the rows stay unique and unambiguous. -/
theorem rows_unambiguous (br : Bridge Port) (es : List (Event Port)) :
    Throughout step Unambiguous { br with mcList := [] } es := by
  have hempty : Unambiguous { br with mcList := [] } := ⟨List.nodup_nil, by simp [keys], by simp [keys]⟩
  exact Throughout.of_invariant (fun _ h => h) (fun _ e h _ _ => h.step e) hempty
    (Along.of_forall (fun _ _ => trivial) _ es) (Along.of_forall (fun _ _ => trivial) _ es)

end AliceModem.TableRows
