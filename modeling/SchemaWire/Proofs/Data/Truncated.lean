import SchemaWire.Proofs.Data.Replay

/-!
# Data that end too early

Readers of data need only the bytes that they take, like the readers of bytes that they are made
of. What was recorded makes no difference: a value that stands again starts in a shorter message
where it starts in the longer one, and all bytes that it takes there stood before it was referred
to, or are missing as well.
-/

namespace SchemaWire

/-- A value that was recorded in a message, and the same value where the message ends earlier. -/
structure RefEntry.Extends (back : List UInt8) (whole part : RefEntry) : Prop where
  /-- The bytes from the data of the value on. -/
  start : whole.start = part.start ++ back
  /-- The wire type is the same. -/
  type : whole.type = part.type
  /-- The same is known of the value. -/
  resolved : whole.resolved = part.resolved

/-- What a reader of data keeps track of, and the same where the message ends earlier. -/
structure ReadState.Extends (back : List UInt8) (whole part : ReadState) : Prop where
  /-- The bytes that are left. -/
  input : whole.input = part.input ++ back
  /-- The same names were read. -/
  names : whole.names = part.names
  /-- The same values can be referred to. -/
  refs : List.Forall₂ (RefEntry.Extends back) whole.refs part.refs

namespace Read

variable {α : Type} {back : List UInt8}

/-- What a local reader of bytes finds, it finds as a reader of data. -/
theorem follows_take {r : Take α} (h : r.Local) : Follows (ReadState.Extends back) (take r) := by
  intro s s' a t hs hok
  obtain ⟨rest, hrest, rfl⟩ := exists_of_take_ok hok
  obtain ⟨rest', hrest', rfl⟩ | ⟨n, left, hend⟩ := h back _ _ a rest hs.input hrest
  · exact .inl ⟨{ s' with input := rest' }, by rw [take, hrest'], rfl, hs.names, hs.refs⟩
  · exact .inr ⟨n, { s' with input := left }, by rw [take, hend]⟩

/-- A value that was recorded was recorded in the shorter message. -/
theorem follows_reference {s s' t : ReadState} {id : Nat} {entry : RefEntry}
    (hs : s.Extends back s') (h : reference id s = .ok entry t) :
    t = s ∧ ∃ entry', reference id s' = .ok entry' s' ∧ entry.Extends back entry' := by
  refine ⟨eq_of_reference_ok h, ?_⟩
  unfold reference at h ⊢
  split at h
  next own hown =>
    cases h
    obtain ⟨entry', hentry', hsame⟩ := exists_getElem?_of_forall₂ hs.refs hown
    exact ⟨entry', by rw [hentry'], hsame⟩
  next => cases h

/-- A value that is read again is read again in the shorter message, as far as it reaches. -/
theorem follows_again {s s' t : ReadState} {entry entry' : RefEntry} {read : Spot → Read Datum}
    (h : ∀ spot, Follows (ReadState.Extends back) (read spot)) (hs : s.Extends back s')
    (hentry : entry.Extends back entry') {v : Datum} (hok : again entry read s = .ok v t) :
    (∃ t', again entry' read s' = .ok v t' ∧ t.Extends back t') ∨
      RunsOut (again entry' read s') := by
  obtain ⟨u, hread, rfl⟩ := exists_of_again_ok hok
  rw [hentry.type, hentry.resolved] at hread
  have hstart : ReadState.Extends back { s with input := entry.start }
      { s' with input := entry'.start } :=
    ⟨hentry.start, hs.names, hs.refs⟩
  obtain ⟨u', hread', hu⟩ | ⟨n, u', hend⟩ := h _ _ _ v u hstart hread
  · exact .inl ⟨_, again_of_ok hread', hs.input, hu.names, hu.refs⟩
  · exact .inr ⟨n, u', again_of_error hend⟩

namespace Discipline

/-- Readers need only the bytes that they take. -/
def localized : Discipline where
  Holds r := ∀ back, Follows (ReadState.Extends back) r
  pure a _ := .pure a
  throw e _ := .throw e
  bind h hnext back := (h back).bind fun a => hnext a back
  take h _ := follows_take h
  recorded id a back s s' b t hs hok := by
    obtain ⟨entry, u, hentry, h⟩ := exists_of_bind_ok hok
    obtain ⟨rfl, entry', hentry', -⟩ := follows_reference hs hentry
    cases h
    exact .inl ⟨s', bind_of_ok hentry', hs⟩
  again id read h back s s' v t hs hok := by
    obtain ⟨entry, u, hentry, hagain⟩ := exists_of_bind_ok hok
    obtain ⟨rfl, entry', hentry', hsame⟩ := follows_reference hs hentry
    rw [bind_of_ok hentry']
    exact follows_again (fun spot => h spot back) hs hsame hagain

/-- Reading a name needs only the bytes that it takes. -/
theorem localized_name (scheme : Name.Scheme) : localized.Holds (Read.name scheme) := by
  intro back s s' found t hs hok
  rw [Read.name_eq] at hok ⊢
  split at hok
  next own names rest htake =>
    cases hok
    rw [hs.names] at htake
    obtain ⟨rest', htake', rfl⟩ | ⟨n, left, hend⟩ :=
      Take.Local.name s'.names scheme back _ _ _ _ hs.input htake
    · exact .inl ⟨{ s' with input := rest', names := names }, by rw [htake'], rfl, rfl, hs.refs⟩
    · exact .inr ⟨n, { s' with input := left }, by rw [hend]⟩
  next => cases hok

/-- A value is recorded where it is recorded in the longer message. -/
theorem localized_record (type : WireType) (resolved : Resolved) :
    localized.Holds (Read.record type resolved) := by
  intro back s s' u t hs hok
  cases hok
  refine .inl ⟨_, rfl, hs.input, hs.names, ?_⟩
  exact List.rel_append hs.refs (.cons ⟨hs.input, rfl, rfl⟩ .nil)

end Discipline

end Read

end SchemaWire
