import BeforeColony.Proto.Delta
import BeforeColony.Proto.Reading

/-!
# Layouts

What records of all kinds are made of as fields: vectors, directions and rotations in codes. A
writer and a reader of the same fields go round.
-/

set_option autoImplicit false

namespace BeforeColony

def vecFields (bits : ℕ) (v : Fin 3 → ℕ) : List Field := Field.array (⟨·, bits⟩) v

def dirFields (bits : ℕ) (c : Fin 2 → ℕ) : List Field := Field.array (⟨·, bits⟩) c

def quatFields (bits : ℕ) (q : Quat) : List Field := ⟨q.largest, 2⟩ :: vecFields bits q.codes

theorem reads_vecFields {bits : ℕ} {v : Fin 3 → ℕ} (h : ∀ k, v k < 2 ^ bits) :
    Reads (readVec bits) (Field.all (vecFields bits v)) v := by
  rw [vecFields, Field.all_array]
  exact Reads.array fun k => Reads.field (h k)

theorem reads_dirFields {bits : ℕ} {c : Fin 2 → ℕ} (h : ∀ k, c k < 2 ^ bits) :
    Reads (readDir bits) (Field.all (dirFields bits c)) c := by
  rw [dirFields, Field.all_array]
  exact Reads.array fun k => Reads.field (h k)

@[simp] theorem widths_vecFields (bits : ℕ) (v : Fin 3 → ℕ) :
    Field.widths (vecFields bits v) = 3 * bits :=
  Field.widths_array v fun _ => rfl

@[simp] theorem widths_dirFields (bits : ℕ) (c : Fin 2 → ℕ) :
    Field.widths (dirFields bits c) = 2 * bits :=
  Field.widths_array c fun _ => rfl

theorem orInvalid_of_eq {α : Type} {o : Option α} {a : α} (h : o = some a) :
    orInvalid o = pure a := by rw [h]; rfl

theorem Reads.whole {α : Type} {rd : Read α} {bs : List Bool} {a : α} (h : Reads rd bs a) :
    Reads (whole rd) bs a := fun rest => whole_ok_iff.mpr ⟨h rest, rfl⟩

theorem reads_quatFields {bits : ℕ} {q : Quat} (hlargest : q.largest < 2 ^ 2)
    (hcodes : ∀ k, q.codes k < 2 ^ bits) : Reads (readQuat bits) (Field.all (quatFields bits q)) q :=
  (Reads.field hlargest).bind ((reads_vecFields hcodes).map rfl)

@[simp] theorem widths_quatFields (bits : ℕ) (q : Quat) :
    Field.widths (quatFields bits q) = 2 + 3 * bits := by
  simp [quatFields]

theorem RoundTrips.map {α β : Type} {write : BitWriter → BitWriter} {rd : Read α} {n : ℕ} {a : α}
    (h : RoundTrips write rd n a) (f : α → β) :
    RoundTrips write (do let a ← rd; return f a) n (f a) := by
  obtain ⟨bs, hlen, hwrite, hreads⟩ := h
  exact ⟨bs, hlen, hwrite, hreads.map rfl⟩

theorem RoundTrips.unique {α : Type} {write : BitWriter → BitWriter} {rd : Read α} {n : ℕ} {a b : α}
    (h : RoundTrips write rd n a) (h' : RoundTrips write rd n b) : a = b := by
  obtain ⟨bs, hlen, hwrite, hreads⟩ := h
  obtain ⟨bs', hlen', hwrite', hreads'⟩ := h'
  have hfits : (⟨[], n, false⟩ : BitWriter).Fits n := ⟨rfl, (Nat.zero_add n).le⟩
  have hsame := (hwrite _ hfits).symm.trans (hwrite' _ hfits)
  simp only [BitWriter.append, List.nil_append, BitWriter.mk.injEq] at hsame
  have hok := (hreads []).symm.trans (hsame.1 ▸ hreads' [])
  exact Except.ok.inj (Prod.mk.inj hok).1

theorem roundTrips_put {α : Type} {rd : Read α} {fs : List Field} {n : ℕ} {a : α}
    (hreads : Reads rd (Field.all fs) a) (hwidths : Field.widths fs = n) :
    RoundTrips (fun w => w.put fs) rd n a :=
  ⟨_, by rw [Field.length_all, hwidths], fun _ hw => BitWriter.put_eq (hwidths.symm ▸ hw), hreads⟩

end BeforeColony
