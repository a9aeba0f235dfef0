import AliceModem.Lib.BigEndian
import AliceModem.Lib.CString

namespace AliceModem.Dns

open BigEndian CString

structure Label where
  chars : List UInt8
  length_pos : 0 < chars.length
  length_le : chars.length ≤ 63

inductive Ending
  | root
  | pointer (target : Nat)

/-- A domain name as it stands in a message: the rest of a compressed name is
found at another place. -/
structure Name where
  labels : List Label
  ending : Ending

inductive Data
  | a (address : Vector UInt8 4)
  | cname (target : Name)
  | other (type : Nat) (rdata : List UInt8) (other_type : type ≠ 1 ∧ type ≠ 5)

structure Record where
  owner : Name
  ttl : UInt32
  data : Data

/-- A response with one question for the addresses of a name. -/
structure Message where
  id : Nat
  flags : Nat
  question : List Label
  answers : List Record
  authority : List Record
  additional : List Record

def bytes16 (n : Nat) : List UInt8 := [UInt8.ofNat (n / 256), UInt8.ofNat n]

def Label.bytes (l : Label) : List UInt8 := UInt8.ofNat l.chars.length :: l.chars

def Ending.bytes : Ending → List UInt8
  | .root => [0]
  | .pointer target => bytes16 (0xC000 + target)

def Name.bytes (n : Name) : List UInt8 := n.labels.flatMap Label.bytes ++ n.ending.bytes

namespace Data

def type : Data → Nat
  | .a _ => 1
  | .cname _ => 5
  | .other type _ _ => type

def bytes : Data → List UInt8
  | .a address => address.toList
  | .cname target => target.bytes
  | .other _ rdata _ => rdata

def fill (address : Vector UInt8 4) : Data → Data
  | .a _ => .a address
  | .cname target => .cname target
  | .other type rdata h => .other type rdata h

end Data

namespace Record

def Address (r : Record) (address : List UInt8) : Prop := ∃ v, r.data = .a v ∧ v.toList = address

def head (r : Record) : List UInt8 :=
  r.owner.bytes ++ bytes16 r.data.type ++ bytes16 1 ++ bytes32 r.ttl.toNat ++ bytes16 r.data.bytes.length

def bytes (r : Record) : List UInt8 := r.head ++ r.data.bytes

/-- The record with another lifetime, and another address if it has one. -/
def fill (ttl : UInt32) (address : Vector UInt8 4) (r : Record) : Record := ⟨r.owner, ttl, r.data.fill address⟩

/-- The names of the record and where they stand, if the record stands at `p`. -/
def names (p : Nat) (r : Record) : List (Nat × Name) :=
  (p, r.owner) :: match r.data with
    | .cname target => [(p + r.head.length, target)]
    | _ => []

end Record

def recordNames : Nat → List Record → List (Nat × Name)
  | _, [] => []
  | p, r :: rs => r.names p ++ recordNames (p + r.bytes.length) rs

namespace Message

variable (m : Message)

def questionName : Name := ⟨m.question, .root⟩

def head : List UInt8 :=
  bytes16 m.id ++ bytes16 m.flags ++ bytes16 1 ++ bytes16 m.answers.length ++ bytes16 m.authority.length ++
    bytes16 m.additional.length ++ m.questionName.bytes ++ bytes16 1 ++ bytes16 1

def others : List Record := m.authority ++ m.additional

def bytes : List UInt8 := m.head ++ (m.answers.flatMap Record.bytes ++ m.others.flatMap Record.bytes)

def fill (ttl : UInt32) (address : Vector UInt8 4) : Message := { m with answers := m.answers.map (Record.fill ttl address) }

/-- The message without the lifetimes and addresses of its answers. -/
def blank : Message := m.fill 0 (Vector.replicate 4 0)

def names : List (Nat × Name) := (12, m.questionName) :: recordNames m.head.length (m.answers ++ m.others)

end Message

def labelStarts : Nat → List Label → List Nat
  | _, [] => []
  | p, l :: ls => p :: labelStarts (p + l.bytes.length) ls

def Ending.leadsTo (starts : List Nat) : Ending → Bool
  | .root => true
  | .pointer target => target ∈ starts

/-- Every pointer leads to one of the labels that start in front of its own name. -/
def pointBack : List Nat → List (Nat × Name) → Bool
  | _, [] => true
  | starts, (p, n) :: names => n.ending.leadsTo starts && pointBack (starts ++ labelStarts p n.labels) names

def dotted : List Label → List UInt8
  | [] => []
  | [l] => l.chars
  | l :: ls => l.chars ++ 46 :: dotted ls

def Spells (hostname : List UInt8) (labels : List Label) : Prop :=
  hostname = dotted labels ∨ hostname = dotted labels ++ [46]

/-- A well-formed response to the question for the addresses of `hostname` that
has one and fits in `size` bytes. -/
structure Answers (hostname : List UInt8) (size : Nat) (m : Message) : Prop where
  spells : Spells hostname m.question
  point_back : pointBack [] m.names = true
  fits : m.bytes.length ≤ size
  has_address : ∃ r ∈ m.answers, ∃ address, r.Address address

@[simp] theorem length_bytes16 (n : Nat) : (bytes16 n).length = 2 := rfl

theorem Name.bytes_ne_nil (n : Name) : n.bytes ≠ [] := by
  cases hending : n.ending with
  | root => simp [Name.bytes, hending, Ending.bytes]
  | pointer target => simp [Name.bytes, hending, Ending.bytes, bytes16]

theorem Name.length_bytes_root (labels : List Label) :
    (Name.bytes ⟨labels, .root⟩).length = (labels.flatMap Label.bytes).length + 1 := by
  simp [Name.bytes, Ending.bytes]

theorem Record.length_head (r : Record) : r.head.length = r.owner.bytes.length + 10 := by
  simp [Record.head]

theorem Message.length_head (m : Message) : m.head.length = m.questionName.bytes.length + 16 := by
  simp only [Message.head, List.length_append, length_bytes16]
  omega

theorem length_dotted {labels : List Label} (hne : labels ≠ []) :
    (dotted labels).length + 1 = (labels.flatMap Label.bytes).length := by
  induction labels with
  | nil => exact absurd rfl hne
  | cons l ls ih =>
      cases ls with
      | nil => simp [dotted, Label.bytes]
      | cons l' ls =>
          have htail := ih (List.cons_ne_nil l' ls)
          rw [List.flatMap_cons, List.length_append, ← htail, dotted]
          · simp only [List.length_append, List.length_cons, Label.bytes]
            omega
          · exact List.cons_ne_nil l' ls

theorem Spells.length_le {hostname : List UInt8} {labels : List Label} (h : Spells hostname labels) :
    hostname.length ≤ (Name.bytes ⟨labels, .root⟩).length := by
  rw [Name.length_bytes_root]
  cases labels with
  | nil =>
      rcases h with rfl | rfl
      · exact Nat.zero_le _
      · exact Nat.le_refl 1
  | cons l ls =>
      have hlen := length_dotted (List.cons_ne_nil l ls)
      rcases h with rfl | rfl
      · omega
      · rw [List.length_append, List.length_singleton]
        omega

section

variable (ttl : UInt32) (address : Vector UInt8 4)

theorem Data.type_fill (d : Data) : (d.fill address).type = d.type := by cases d <;> rfl

theorem Data.length_fill (d : Data) : (d.fill address).bytes.length = d.bytes.length := by
  cases d <;> simp [Data.fill, Data.bytes]

theorem Record.length_fill (r : Record) : (r.fill ttl address).bytes.length = r.bytes.length := by
  rw [Record.bytes, Record.bytes, List.length_append, List.length_append, length_head, length_head]
  exact congrArg _ (Data.length_fill address r.data)

theorem Record.names_fill (p : Nat) (r : Record) : (r.fill ttl address).names p = r.names p := by
  obtain ⟨owner, ttl', data⟩ := r
  cases data with
  | a address' => rfl
  | cname target => simp [Record.names, Record.fill, Data.fill, length_head]
  | other type rdata h => rfl

theorem length_answers_fill (rs : List Record) :
    ((rs.map (Record.fill ttl address)).flatMap Record.bytes).length = (rs.flatMap Record.bytes).length := by
  induction rs with
  | nil => rfl
  | cons r rs ih =>
      rw [List.map_cons, List.flatMap_cons, List.flatMap_cons, List.length_append, List.length_append, ih, Record.length_fill]

theorem recordNames_fill (p : Nat) (rs others : List Record) :
    recordNames p (rs.map (Record.fill ttl address) ++ others) = recordNames p (rs ++ others) := by
  induction rs generalizing p with
  | nil => rfl
  | cons r rs ih =>
      rw [List.map_cons, List.cons_append, List.cons_append, recordNames, recordNames, Record.names_fill, Record.length_fill, ih]

theorem Message.head_fill (m : Message) : (m.fill ttl address).head = m.head := by
  simp [Message.head, Message.fill, Message.questionName]

theorem Message.blank_fill (m : Message) : (m.fill ttl address).blank = m.blank := by
  simp only [Message.blank, Message.fill, List.map_map, Message.mk.injEq, true_and, and_true]
  congr 1
  funext r
  obtain ⟨owner, ttl', data⟩ := r
  cases data <;> rfl

theorem Answers.fill {hostname : List UInt8} {size : Nat} {m : Message} (h : Answers hostname size m) :
    Answers hostname size (m.fill ttl address) := by
  have hhead := m.head_fill ttl address
  refine ⟨h.spells, ?_, ?_, ?_⟩
  · have hnames : (m.fill ttl address).names = m.names := by
      rw [Message.names, Message.names, hhead]
      exact congrArg _ (recordNames_fill ttl address m.head.length m.answers m.others)
    exact hnames ▸ h.point_back
  · have hlen : (m.fill ttl address).bytes.length = m.bytes.length := by
      rw [Message.bytes, Message.bytes, hhead, List.length_append, List.length_append, List.length_append, List.length_append]
      exact congrArg (fun n => m.head.length + (n + _)) (length_answers_fill ttl address m.answers)
    exact hlen ▸ h.fits
  · obtain ⟨r, hr, _, v, hv, -⟩ := h.has_address
    exact ⟨r.fill ttl address, List.mem_map_of_mem hr, address.toList, address, congrArg (Data.fill address) hv, rfl⟩

end

end AliceModem.Dns
