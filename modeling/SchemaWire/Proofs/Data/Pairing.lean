import SchemaWire.Data.Plain
import SchemaWire.Data.Write
import SchemaWire.Proofs.Message.Peers

/-!
# Loops of writers and readers

A pairing says of a writer and a reader that the one reads what the other writes. Where it
holds of elements, entries or parts, it holds of the loops over them, so that plain values
and annotated values share the argument.
-/

namespace SchemaWire

/-- A relation between a writer, a reader and the value that is written and read, which holds
of nothing at all and of two parts in sequence. -/
structure Pairing (σ : Type) where
  /-- The reader reads the value that the writer writes. -/
  Rel {α : Type} : Write (List UInt8) → EStateM Error σ α → α → Prop
  /-- Nothing is written of a value that is known. -/
  nil {α : Type} (a : α) : Rel (pure []) (pure a) a
  /-- Two writers in sequence are read by two readers in sequence. -/
  append {α β : Type} {writer next : Write (List UInt8)} {reader : EStateM Error σ α}
    {then' : α → EStateM Error σ β} {a : α} {b : β} (h : Rel writer reader a)
    (hnext : Rel next (then' a) b) :
    Rel (do return (← writer) ++ (← next)) (reader >>= then') b
  /-- What is made of the value afterwards has not been written. -/
  map {α β : Type} {writer : Write (List UInt8)} {reader : EStateM Error σ α} {a : α}
    (h : Rel writer reader a) (f : α → β) : Rel writer (do return f (← reader)) (f a)

namespace Pairing

variable {σ : Type} (pairing : Pairing σ) {env : WriteEnv} {depth : Nat}

section Bytes

variable {α β : Type} {writer : Write (List UInt8)} {bytes : List UInt8}
  {reader : EStateM Error σ α} {then' : α → EStateM Error σ β} {a : α} {b : β}

/-- Bytes that stand in front are read first. -/
theorem prepend (h : pairing.Rel (pure bytes) reader a) (hnext : pairing.Rel writer (then' a) b) :
    pairing.Rel (do return bytes ++ (← writer)) (reader >>= then') b := by
  simpa only [pure_bind] using pairing.append h hnext

/-- Bytes that stand behind are read last. -/
theorem extend (h : pairing.Rel writer reader a) (hnext : pairing.Rel (pure bytes) (then' a) b) :
    pairing.Rel (do return (← writer) ++ bytes) (reader >>= then') b := by
  simpa only [pure_bind] using pairing.append h hnext

/-- Three writers in sequence are read by three readers in sequence. -/
theorem append₃ {γ : Type} {next last : Write (List UInt8)} {final : α → β → EStateM Error σ γ}
    {c : γ} (h : pairing.Rel writer reader a) (hnext : pairing.Rel next (then' a) b)
    (hlast : pairing.Rel last (final a b) c) :
    pairing.Rel
      (do
        let first ← writer
        let second ← next
        return first ++ second ++ (← last))
      (do
        let a ← reader
        let b ← then' a
        final a b) c := by
  have hall : pairing.Rel
      (do return (← writer) ++ (← (do return (← next) ++ (← last))))
      (reader >>= fun a => then' a >>= final a) c :=
    pairing.append h (pairing.append hnext hlast)
  simpa only [bind_assoc, pure_bind, List.append_assoc] using hall

end Bytes

/-- Elements of one shape are read in a loop. -/
theorem collect {place : Place} {read : Elements σ} {shape : Shape} {items : List Datum}
    (h : ∀ v ∈ items, ∀ index,
      pairing.Rel (Write.datum env depth place v) (read index shape) v) (index : Nat) :
    pairing.Rel (Write.items env depth place items) (read.collect shape items.length index)
      items := by
  induction items generalizing index with
  | nil =>
    rw [Write.items]
    exact pairing.nil []
  | cons first rest ih =>
    have hfirst := h first List.mem_cons_self index
    have hrest := ih (fun v hv => h v (List.mem_cons_of_mem _ hv)) (index + 1)
    rw [Write.items]
    exact pairing.append hfirst (pairing.map hrest (first :: ·))

/-- Entries of one shape are read in a loop. -/
theorem entries {keyPlace valuePlace : Place} {read : Entries σ} {key value : Shape}
    {content : List (Datum × Datum)}
    (hkey : ∀ entry ∈ content, ∀ index,
      pairing.Rel (Write.datum env depth keyPlace entry.1) (read.key index key) entry.1)
    (hvalue : ∀ entry ∈ content, ∀ index,
      pairing.Rel (Write.datum env depth valuePlace entry.2) (read.value index value) entry.2)
    (index : Nat) :
    pairing.Rel (Write.entries env depth keyPlace valuePlace content)
      (read.collect key value content.length index) content := by
  induction content generalizing index with
  | nil =>
    rw [Write.entries]
    exact pairing.nil []
  | cons first rest ih =>
    obtain ⟨k, v⟩ := first
    have hk := hkey (k, v) List.mem_cons_self index
    have hv := hvalue (k, v) List.mem_cons_self index
    have hrest := ih (fun entry hmem => hkey entry (List.mem_cons_of_mem _ hmem))
      (fun entry hmem => hvalue entry (List.mem_cons_of_mem _ hmem)) (index + 1)
    rw [Write.entries]
    exact pairing.append₃ hk hv (pairing.map hrest ((k, v) :: ·))

/-- Elements are passed over one after the other. -/
theorem times {place : Place} {skip : EStateM Error σ Unit} {items : List Datum}
    (h : ∀ v ∈ items, pairing.Rel (Write.datum env depth place v) skip ()) :
    pairing.Rel (Write.items env depth place items) (Take.times skip items.length)
      (items.map fun _ => ()) := by
  induction items with
  | nil =>
    rw [Write.items]
    exact pairing.nil []
  | cons first rest ih =>
    have hfirst := h first List.mem_cons_self
    have hrest := ih fun v hv => h v (List.mem_cons_of_mem _ hv)
    rw [Write.items]
    exact pairing.append hfirst (pairing.map hrest (() :: ·))

/-- Entries are passed over one after the other. -/
theorem timesEntries {keyPlace valuePlace : Place} {skipKey skipValue : EStateM Error σ Unit}
    {content : List (Datum × Datum)}
    (hkey : ∀ entry ∈ content, pairing.Rel (Write.datum env depth keyPlace entry.1) skipKey ())
    (hvalue : ∀ entry ∈ content,
      pairing.Rel (Write.datum env depth valuePlace entry.2) skipValue ()) :
    pairing.Rel (Write.entries env depth keyPlace valuePlace content)
      (Take.times (do skipKey; skipValue) content.length) (content.map fun _ => ()) := by
  induction content with
  | nil =>
    rw [Write.entries]
    exact pairing.nil []
  | cons first rest ih =>
    obtain ⟨k, v⟩ := first
    have hk := hkey (k, v) List.mem_cons_self
    have hv := hvalue (k, v) List.mem_cons_self
    have hrest := ih (fun entry hmem => hkey entry (List.mem_cons_of_mem _ hmem))
      fun entry hmem => hvalue entry (List.mem_cons_of_mem _ hmem)
    rw [Write.entries, List.length_cons, Take.times, bind_assoc]
    exact pairing.append₃ hk hv (pairing.map hrest (() :: ·))

/-- Elements of their own shapes are read by position. -/
theorem positional {place : Place} {read : Elements σ} {parts : List Shape} {items : List Datum}
    {count : Nat} {index : Nat} (hlength : parts.length = items.length)
    (hcount : index + parts.length ≤ count)
    (h : ∀ part ∈ parts.zip items, ∀ index,
      pairing.Rel (Write.datum env depth place part.2) (read index part.1) part.2) :
    pairing.Rel (Write.items env depth place items) (read.positional count parts index)
      items := by
  induction parts generalizing items index with
  | nil =>
    cases items with
    | nil =>
      rw [Write.items]
      exact pairing.nil []
    | cons => cases hlength
  | cons shape others ih =>
    cases items with
    | nil => cases hlength
    | cons first rest =>
      have hbelow : ¬ count ≤ index := by
        rw [List.length_cons] at hcount
        omega
      have hfirst := h (shape, first) List.mem_cons_self index
      have hbound : index + 1 + others.length ≤ count := by
        rw [List.length_cons] at hcount
        omega
      have hrest := ih (Nat.succ.inj hlength) hbound
        (fun part hmem => h part (List.mem_cons_of_mem _ hmem))
      rw [Write.items, Elements.positional, if_neg hbelow]
      exact pairing.append hfirst (pairing.map hrest (first :: ·))

/-- Parts of a struct are read in their order. -/
theorem members {gaps : Bool} {read : Elements σ} {parts : List (Member Shape)}
    {fields : List (String × Datum)} {count : Nat} {index : Nat}
    (hnames : parts.map Member.name = fields.map Prod.fst) (hcount : index + parts.length ≤ count)
    (hpresent : ∀ field ∈ fields, field.2 ≠ .absent)
    (h : ∀ part ∈ parts.zip fields, ∀ index,
      pairing.Rel (Write.datum env depth .plain part.2.2) (read index part.1.content)
        part.2.2) :
    pairing.Rel (Write.members env depth gaps fields) (read.members count parts index)
      fields := by
  induction parts generalizing fields index with
  | nil =>
    cases fields with
    | nil =>
      rw [Write.members]
      exact pairing.nil []
    | cons => cases hnames
  | cons member others ih =>
    cases fields with
    | nil => cases hnames
    | cons field rest =>
      obtain ⟨name, value⟩ := field
      rw [List.map_cons, List.map_cons] at hnames
      obtain ⟨hname, hnames⟩ := List.cons.inj hnames
      have hbelow : index < count := by
        rw [List.length_cons] at hcount
        omega
      have hfirst := h (member, (name, value)) List.mem_cons_self index
      have hbound : index + 1 + others.length ≤ count := by
        rw [List.length_cons] at hcount
        omega
      have hrest := ih hnames hbound
        (fun field hmem => hpresent field (List.mem_cons_of_mem _ hmem))
        (fun part hmem => h part (List.mem_cons_of_mem _ hmem))
      rw [Write.members_cons (hpresent _ List.mem_cons_self), Elements.members,
        if_pos hbelow]
      cases hname
      exact pairing.append hfirst (pairing.map hrest ((member.name, value) :: ·))

end Pairing

/-- A writer of a message and the reader that mirrors it. -/
def Peers.pairing (peers : Peers) : Pairing ReadState where
  Rel := peers.Mirrors
  nil a := .pure fun _ => .pure a
  append := Peers.Mirrors.append
  map := Peers.Mirrors.map

end SchemaWire
