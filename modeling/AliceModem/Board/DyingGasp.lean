import AliceModem.Lib.BigEndian
import AliceModem.Lib.CString
import AliceModem.Lib.Transition
import Mathlib.Data.Multiset.Basic

namespace AliceModem.DyingGasp

open Transition BigEndian CString

def ifnamsiz : Nat := 16

/-- A node of the list of handlers. `devname` is the name the handler was
registered under and `addr` the address of the node. -/
structure Node where
  addr : Nat
  devname : Str
  cbDgaspFn : UInt32
  context : UInt32
  deriving DecidableEq

def Node.name (tmp : Node) : List UInt8 := strncpy ifnamsiz tmp.devname.chars

def Node.bytes (behind : Nat → Nat → UInt8) (tmp : Node) : Nat → UInt8 :=
  memory (tmp.name ++ (bytes32 tmp.cbDgaspFn.toNat ++ bytes32 tmp.context.toNat)) (behind tmp.addr)

def hasName (behind : Nat → Nat → UInt8) (devname : Str) (tmp : Node) : Bool := strcmpEq (tmp.bytes behind) devname.chars

def dslText : List UInt8 := [100, 115, 108]

def Node.isDsl (tmp : Node) : Bool := strncmpEq 3 tmp.name dslText

def kerSysRegisterDyingGaspHandler (list : List Node) (devname : Option Str) (cbfn context : UInt32) (addr : Nat) :
    List Node :=
  match devname with
  | none => list
  | some devname => if cbfn = 0 then list else ⟨addr, devname, cbfn, context⟩ :: list

def kerSysDeregisterDyingGaspHandler (list : List Node) (devname : Option Str) (behind : Nat → Nat → UInt8) :
    List Node :=
  match devname with
  | none => list
  | some devname => list.eraseP (hasName behind devname)

/-- The nodes whose functions the loop calls, and the variable `dsl` after it. -/
def isrLoop : List Node → Option Node → List Node × Option Node
  | [], dsl => ([], dsl)
  | tmp :: list, dsl =>
      if tmp.isDsl then isrLoop list (some tmp)
      else
        let r := isrLoop list dsl
        (tmp :: r.1, r.2)

def kerSysDyingGaspIsr (powerLoss : Bool) (list : List Node) : List Node :=
  if powerLoss then
    let r := isrLoop list none
    r.1 ++ r.2.toList
  else []

inductive Event
  | register (devname : Option Str) (cbfn context : UInt32) (addr : Nat)
  | deregister (devname : Option Str) (behind : Nat → Nat → UInt8)

def step (list : List Node) : Event → List Node
  | .register devname cbfn context addr => kerSysRegisterDyingGaspHandler list devname cbfn context addr
  | .deregister devname behind => kerSysDeregisterDyingGaspHandler list devname behind

def Removes (list : List Node) (devname : Str) (list' : List Node) : Prop :=
  (∃ xs tmp ys, list = xs ++ tmp :: ys ∧ tmp.devname = devname ∧ list' = xs ++ ys) ∨
    (∀ tmp ∈ list, tmp.devname ≠ devname) ∧ list' = list

def Exact (list : List Node) (e : Event) : Prop :=
  match e with
  | .register (some devname) cbfn context addr =>
      step list e = if cbfn = 0 then list else ⟨addr, devname, cbfn, context⟩ :: list
  | .deregister (some devname) _ => Removes list devname (step list e)
  | _ => step list e = list

def Reaches (list : List Node) : Prop :=
  (kerSysDyingGaspIsr true list).Perm list ∧
    (kerSysDyingGaspIsr true list).Pairwise fun a b => dslText <+: a.devname.chars → dslText <+: b.devname.chars

def OneDsl (list : List Node) : Prop := (list.filter fun tmp => dslText.isPrefixOf tmp.devname.chars).length ≤ 1

/-- A name that does not fit into the array is found where it was registered. -/
def Found (list : List Node) : Event → Prop
  | .deregister (some devname) behind =>
      devname.chars.length < ifnamsiz ∨
        match list.find? (hasName behind devname) with
        | some tmp => tmp.devname = devname
        | none => ∀ tmp ∈ list, tmp.devname ≠ devname
  | _ => True

section Deregister

variable {list : List Node} {devname : Str} {behind : Nat → Nat → UInt8}

variable (behind) in
theorem hasName_iff (tmp : Node) (hlen : devname.chars.length < ifnamsiz) :
    hasName behind devname tmp = true ↔ tmp.devname = devname := by
  rw [hasName, Node.bytes, memory_append, Node.name, strcmpEq_strncpy devname.nul_free tmp.devname.nul_free hlen]
  exact ⟨Str.ext, congrArg Str.chars⟩

theorem removes_of_append {xs ys : List Node} {tmp : Node} :
    Removes (xs ++ tmp :: ys) devname (xs ++ ys) ↔ tmp.devname = devname := by
  constructor
  · rintro (⟨us, tmp', vs, hlist, hname, hrest⟩ | ⟨-, hrest⟩)
    · have hperm : (tmp :: (xs ++ ys)).Perm (tmp' :: (xs ++ ys)) := by
        rw [hrest]
        refine List.Perm.trans ?_ List.perm_middle
        rw [← hlist, ← hrest]
        exact List.perm_middle.symm
      have hsame : (tmp ::ₘ (xs ++ ys : List Node) : Multiset Node) = tmp' ::ₘ (xs ++ ys : List Node) :=
        Multiset.coe_eq_coe.mpr hperm
      rw [(Multiset.cons_inj_left _).mp hsame, hname]
    · have hlen := congrArg List.length hrest
      simp at hlen
  · intro h
    exact .inl ⟨xs, tmp, ys, rfl, h, rfl⟩

theorem removes_deregister :
    Removes list devname (step list (.deregister (some devname) behind)) ↔
      match list.find? (hasName behind devname) with
      | some tmp => tmp.devname = devname
      | none => ∀ tmp ∈ list, tmp.devname ≠ devname := by
  rw [step, kerSysDeregisterDyingGaspHandler]
  cases hfind : list.find? (hasName behind devname) with
  | none =>
      have hnone := List.find?_eq_none.mp hfind
      dsimp only
      rw [List.eraseP_of_forall_not hnone]
      refine ⟨?_, fun h => .inr ⟨h, rfl⟩⟩
      rintro (⟨xs, tmp, ys, hlist, -, hrest⟩ | ⟨h, -⟩)
      · have hlen := congrArg List.length (hlist.symm.trans hrest)
        simp at hlen
      · exact h
  | some tmp =>
      obtain ⟨hfound, xs, ys, rfl, hxs⟩ := List.find?_eq_some_iff_append.mp hfind
      have hnot (b : Node) (hb : b ∈ xs) : ¬ hasName behind devname b = true := by
        simpa using hxs b hb
      dsimp only
      rw [List.eraseP_append_right _ hnot, List.eraseP_cons_of_pos hfound, removes_of_append]

theorem exact_iff_found (list : List Node) (e : Event) : Exact list e ↔ Found list e := by
  cases e with
  | register devname cbfn context addr =>
      cases devname with
      | none => exact iff_of_true rfl trivial
      | some devname => exact iff_of_true rfl trivial
  | deregister devname behind =>
      cases devname with
      | none => exact iff_of_true rfl trivial
      | some devname =>
          rw [Exact, Found, removes_deregister]
          refine ⟨.inr, fun h => h.elim (fun hlen => ?_) id⟩
          have hcmp (tmp : Node) := hasName_iff behind tmp hlen
          split
          case h_1 tmp hfind => exact (hcmp tmp).mp (List.find?_some hfind)
          case h_2 hfind => exact fun tmp htmp h => List.find?_eq_none.mp hfind tmp htmp ((hcmp tmp).mpr h)

end Deregister

section Isr

theorem isDsl_eq (tmp : Node) : tmp.isDsl = dslText.isPrefixOf tmp.devname.chars := by
  rw [Bool.eq_iff_iff, List.isPrefixOf_iff_prefix, Node.isDsl, Node.name]
  exact strncmpEq_strncpy (s := dslText) (by decide) (by decide)

theorem isrLoop_eq (list : List Node) (dsl : Option Node) :
    isrLoop list dsl = (list.filter (!·.isDsl), (list.filter (·.isDsl)).getLast?.or dsl) := by
  induction list generalizing dsl with
  | nil => rfl
  | cons tmp list ih =>
      rw [isrLoop]
      cases htmp : tmp.isDsl with
      | true => simp [ih, htmp, List.getLast?_cons]
      | false => simp [ih, htmp]

theorem isr_eq (list : List Node) : kerSysDyingGaspIsr true list =
    list.filter (!·.isDsl) ++ (list.filter (·.isDsl)).getLast?.toList := by
  rw [kerSysDyingGaspIsr, if_pos rfl, isrLoop_eq, Option.or_none]

theorem isr_ordered (list : List Node) : (kerSysDyingGaspIsr true list).Pairwise
    fun a b => dslText <+: a.devname.chars → dslText <+: b.devname.chars := by
  have hother (tmp : Node) (htmp : tmp ∈ list.filter (!·.isDsl)) : ¬ dslText <+: tmp.devname.chars := by
    have hdsl := List.of_mem_filter htmp
    rw [isDsl_eq, Bool.not_eq_true', ← Bool.not_eq_true, List.isPrefixOf_iff_prefix] at hdsl
    exact hdsl
  rw [isr_eq, List.pairwise_append]
  refine ⟨List.Pairwise.imp_of_mem (fun ha _ _ h => absurd h (hother _ ha)) (List.pairwise_of_forall fun _ _ => trivial),
    ?_, fun a ha _ _ h => absurd h (hother a ha)⟩
  cases (list.filter (·.isDsl)).getLast? with
  | none => exact .nil
  | some tmp => exact List.pairwise_singleton _ tmp

theorem getLast?_toList_of_length {list : List Node} (h : list.length ≤ 1) : list.getLast?.toList = list := by
  cases list with
  | nil => rfl
  | cons tmp list =>
      rw [List.length_eq_zero_iff.mp (Nat.le_zero.mp (Nat.le_of_succ_le_succ h))]
      rfl

theorem oneDsl_iff (list : List Node) : OneDsl list ↔ (list.filter (·.isDsl)).length ≤ 1 := by
  rw [OneDsl, List.filter_congr fun tmp _ => (isDsl_eq tmp).symm]

theorem reaches_iff (list : List Node) : Reaches list ↔ OneDsl list := by
  have hsplit : (list.filter (!·.isDsl) ++ list.filter (·.isDsl)).Perm list :=
    List.perm_append_comm.trans (List.filter_append_perm (·.isDsl) list)
  rw [Reaches, and_iff_left (isr_ordered list), isr_eq, oneDsl_iff]
  constructor
  · intro h
    have hlen := (h.trans hsplit.symm).length_eq
    rw [List.length_append, List.length_append] at hlen
    have hlast : (list.filter (·.isDsl)).getLast?.toList.length ≤ 1 := by
      cases (list.filter (·.isDsl)).getLast? <;> simp
    omega
  · intro h
    rwa [getLast?_toList_of_length h]

end Isr

/-- A loss of power reaches every handler if and only if there is never more than
one handler of the line, and long names are found when they are deregistered. -/
theorem dying_gasp_reaches_all_iff (es : List Event) :
    Along step Exact [] es ∧ Throughout step Reaches [] es ↔ Along step Found [] es ∧ Throughout step OneDsl [] es := by
  have hexact : Exact = Found := by
    funext list e
    exact propext (exact_iff_found list e)
  have hreaches : Reaches = OneDsl := by
    funext list
    exact propext (reaches_iff list)
  rw [hexact, hreaches]

def dsl0 : Str := ⟨[100, 115, 108, 48], by decide⟩

def dsl1 : Str := ⟨[100, 115, 108, 49], by decide⟩

def longName : Str := ⟨List.replicate 16 97, by decide⟩

theorem handlers_lost_and_left :
    (∃ es : List Event, (es.foldl step []).map Node.devname = [dsl1, dsl0] ∧
        (kerSysDyingGaspIsr true (es.foldl step [])).map Node.devname = [dsl0]) ∧
      ∃ es : List Event, (es.foldl step []).map Node.devname = [longName] ∧
        step (es.foldl step []) (.deregister (some longName) fun _ _ => 0) = es.foldl step [] := by
  refine ⟨⟨[.register (some dsl0) 0x80001000 0 0, .register (some dsl1) 0x80002000 0 32], ?_, ?_⟩,
    ⟨[.register (some longName) 0x80003000 0 0], ?_, ?_⟩⟩
  · decide
  · decide
  · decide
  · decide

end AliceModem.DyingGasp
