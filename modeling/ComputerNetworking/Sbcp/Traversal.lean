/-
# ComputerNetworking.Sbcp.Traversal -- iterating over a message and the accessors built on it

`AttributeIterator` walks the packed payload by raw offsets: `begin()` is offset 0, `end()` is the
announced length, dereferencing reinterprets and validates the bytes at the offset, and `++` adds
the size found there. Only equality with `end()` stops the walk, so a stride that jumps over the
end goes on through the rest of the buffer until something throws.

The accessors find their attribute by type and return the `const char*` of its value, from which a
`std::string` is built. The attribute's length plays no part in that: the string ends at the first
NUL of the payload buffer, wherever that is.
-/
import ComputerNetworking.Sbcp.Message

namespace ComputerNetworking.Sbcp

open ComputerNetworking.Lib

/-- What `operator*` yields: a validated attribute, by reference into the payload. -/
structure AttributeRef where
  offset : Nat
  type : AttributeType
  length : Nat
  deriving DecidableEq, Repr

/-- `Attribute::size()`. -/
def AttributeRef.size (a : AttributeRef) : Nat := attributeHeaderSize + a.length

/-- One walk from `begin()`: the attributes visited, and the fault that ended it before `end()`. -/
structure Walk where
  attributes : List AttributeRef
  fault : Option Fault
  deriving DecidableEq, Repr

namespace Message

/-- `operator*` at an offset: the type and length found there have to pass `validate()`. -/
def attributeAt (m : Message) (offset : Nat) : Except Fault AttributeRef :=
  match m.payload.drop offset with
  | t₀ :: t₁ :: l₀ :: l₁ :: _ =>
      let length := (ntohs (readLe16 l₀ l₁)).toNat
      (validateAttribute (readLe16 t₀ t₁) length).map fun type => ⟨offset, type, length⟩
  | _ => .error .undefined

theorem attributeAt_lt {m : Message} {offset : Nat} {a : AttributeRef}
    (h : m.attributeAt offset = .ok a) : offset < m.payload.length := by
  unfold attributeAt at h
  split at h
  · next hdrop =>
      by_contra hge
      rw [List.drop_eq_nil_of_le (by omega)] at hdrop
      cases hdrop
  · cases h

/-- The loop of a range-`for` over the message, from an offset on. -/
def walkFrom (m : Message) (offset : Nat) : Walk :=
  if offset = m.getLength then ⟨[], none⟩
  else
    match _h : m.attributeAt offset with
    | .error e => ⟨[], some e⟩
    | .ok a =>
        let rest := m.walkFrom (offset + a.size)
        ⟨a :: rest.attributes, rest.fault⟩
termination_by m.payload.length - offset
decreasing_by
  have := attributeAt_lt _h
  simp only [AttributeRef.size, attributeHeaderSize]
  omega

section Steps

variable {m : Message} {offset : Nat}

theorem walkFrom_end : m.walkFrom m.getLength = ⟨[], none⟩ := by
  rw [walkFrom, if_pos rfl]

theorem walkFrom_error {e : Fault} (hend : offset ≠ m.getLength)
    (h : m.attributeAt offset = .error e) : m.walkFrom offset = ⟨[], some e⟩ := by
  rw [walkFrom, if_neg hend]
  split
  · next he =>
      rw [h] at he
      cases he
      rfl
  · next ha =>
      rw [h] at ha
      cases ha

theorem walkFrom_ok {a : AttributeRef} (hend : offset ≠ m.getLength)
    (h : m.attributeAt offset = .ok a) :
    m.walkFrom offset = ⟨a :: (m.walkFrom (offset + a.size)).attributes,
      (m.walkFrom (offset + a.size)).fault⟩ := by
  rw [walkFrom, if_neg hend]
  split
  · next he =>
      rw [h] at he
      cases he
  · next ha =>
      rw [h] at ha
      cases ha
      rfl

/-- A walk that does not throw finds an attribute wherever it is not at the end. -/
theorem exists_attributeAt (hend : offset ≠ m.getLength) (h : (m.walkFrom offset).fault = none) :
    ∃ a, m.attributeAt offset = .ok a ∧ (m.walkFrom (offset + a.size)).fault = none ∧
      (m.walkFrom offset).attributes = a :: (m.walkFrom (offset + a.size)).attributes := by
  cases hat : m.attributeAt offset with
  | error e =>
      rw [walkFrom_error hend hat] at h
      cases h
  | ok a =>
      rw [walkFrom_ok hend hat] at h ⊢
      exact ⟨a, rfl, h, rfl⟩

end Steps

/-- A whole range-`for`: `begin()` and `end()` validate the message before the first step. -/
def walk (m : Message) : Walk :=
  match m.validate with
  | .error e => ⟨[], some e⟩
  | .ok () => m.walkFrom 0

/-- A walk without a fault has begun with a valid message. -/
theorem validate_of_walk {m : Message} (h : m.walk.fault = none) : m.validate = .ok () := by
  cases hv : m.validate with
  | ok _ => rfl
  | error e =>
      rw [walk, hv] at h
      cases h

/-- The value of an attribute, as long as the attribute says it is: what `operator<<` writes for a
string. -/
def valueAt (m : Message) (a : AttributeRef) : Bytes :=
  (m.payload.drop (a.offset + attributeHeaderSize)).take a.length

/-- The attributes a range-`for` visits, each with its type and value. -/
def contents (m : Message) : List (AttributeType × Bytes) :=
  m.walk.attributes.map fun a => (a.type, m.valueAt a)

/-- Building a `std::string` from the `const char*` an attribute's getter returns. -/
def stringAt (m : Message) (a : AttributeRef) : Except Fault Bytes :=
  match cString (m.payload.drop (a.offset + attributeHeaderSize)) with
  | some s => .ok s
  | none => .error .undefined

/-- The body of `get_usernames`' loop, over the attributes the loop visits. -/
def collectUsernames (m : Message) : List AttributeRef → Except Fault (List Bytes)
  | [] => .ok []
  | a :: rest =>
      if a.type = .username then do
        let username ← m.stringAt a
        let usernames ← m.collectUsernames rest
        .ok (username :: usernames)
      else m.collectUsernames rest

def getUsernames (m : Message) : Except Fault (List Bytes) := do
  let usernames ← m.collectUsernames m.walk.attributes
  match m.walk.fault with
  | some e => .error e
  | none =>
      if usernames.isEmpty then .error (.messageException "Username attribute not found")
      else .ok usernames

/-- `get_usernames().front()`. -/
def getUsername (m : Message) : Except Fault Bytes := do
  let usernames ← m.getUsernames
  match usernames with
  | username :: _ => .ok username
  | [] => .error .undefined

/-- The first attribute of a type a range-`for` meets; the loop returns from there, so what comes
after it is never looked at. -/
def findAttribute (m : Message) (type : AttributeType) (notFound : String) :
    Except Fault AttributeRef :=
  match m.walk.attributes.find? (fun a => a.type = type) with
  | some a => .ok a
  | none =>
      match m.walk.fault with
      | some e => .error e
      | none => .error (.messageException notFound)

def getMessage (m : Message) : Except Fault Bytes := do
  let a ← m.findAttribute .message "Message attribute not found"
  m.stringAt a

def getReason (m : Message) : Except Fault Bytes := do
  let a ← m.findAttribute .reason "Reason attribute not found"
  m.stringAt a

def getClientCount (m : Message) : Except Fault UInt16 := do
  let a ← m.findAttribute .clientCount "Client count attribute not found"
  match m.payload.drop (a.offset + attributeHeaderSize) with
  | c₀ :: c₁ :: _ => .ok (ntohs (readLe16 c₀ c₁))
  | _ => .error .undefined

end Message

end ComputerNetworking.Sbcp
