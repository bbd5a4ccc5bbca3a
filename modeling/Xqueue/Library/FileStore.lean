import Mathlib.Data.List.Nodup
import Mathlib.Data.List.Forall2

/-!
# FileStore — files under names that are never overwritten

A file store saves a content under a name, or under another name that it chooses when the name
is taken, and gives links to names.  This file states what such a store promises and derives
what a series of uploads leaves in it:

* `StorageContract` : a save never overwrites, and a link leads to what is stored under its name;
* `Keeps` : a later state of the store, in which nothing has been lost;
* `Uploads` : a series of saves, each followed by a request for a link to the name asked for;
* `Fits`, `Uploads.fetched_iff` : the links lead to the uploads exactly if every name was free, or
  held the content already.
-/

namespace Xqueue
namespace Library

universe u v w x y

/-- What a store promises, in terms of what is stored under each name and of the name that a
link leads to. -/
structure StorageContract {σ : Type u} {N : Type v} {C : Type w} {L : Type x} {E : Type y}
    (save : σ → N → C → σ × Except E N) (link : σ → N → Except E L) where
  content : σ → N → Option C
  target : L → Option N
  /-- A save stores under a name that was not taken. -/
  save_fresh : ∀ {st st' name chosen c}, save st name c = (st', .ok chosen) →
    content st chosen = none
  save_content : ∀ {st st' name chosen c}, save st name c = (st', .ok chosen) →
    content st' chosen = some c
  /-- A name that is free is not changed. -/
  save_free : ∀ {st st' name chosen c}, save st name c = (st', .ok chosen) →
    content st name = none → chosen = name
  save_other : ∀ {st st' name chosen c other}, save st name c = (st', .ok chosen) →
    other ≠ chosen → content st' other = content st other
  /-- A save that fails loses nothing. -/
  save_error : ∀ {st st' name c e other d}, save st name c = (st', .error e) →
    content st other = some d → content st' other = some d
  link_target : ∀ {st name l}, link st name = .ok l → target l = some name

variable {σ : Type u} {N : Type v} {C : Type w} {L : Type x} {E : Type y}
variable {save : σ → N → C → σ × Except E N} {link : σ → N → Except E L}

/-! ## Later states -/

namespace StorageContract

variable (contract : StorageContract save link) {st st' st₁ st₂ st₃ : σ}

/-- What a link leads to. -/
def fetched (st : σ) (l : L) : Option C :=
  (contract.target l).bind (contract.content st)

/-- Everything that is stored stays stored. -/
def Keeps (st st' : σ) : Prop :=
  ∀ name c, contract.content st name = some c → contract.content st' name = some c

theorem Keeps.refl (st : σ) : contract.Keeps st st :=
  fun _ _ h => h

variable {contract}

theorem Keeps.trans (h₁ : contract.Keeps st₁ st₂) (h₂ : contract.Keeps st₂ st₃) :
    contract.Keeps st₁ st₃ :=
  fun name c h => h₂ name c (h₁ name c h)

theorem keeps_save {name chosen : N} {c : C} (h : save st name c = (st', .ok chosen)) :
    contract.Keeps st st' := by
  intro other d hother
  have hne : other ≠ chosen := by
    rintro rfl
    simp [contract.save_fresh h] at hother
  rw [contract.save_other h hne]
  exact hother

theorem fetched_link {name : N} {l : L} (h : link st name = .ok l) :
    contract.fetched st' l = contract.content st' name := by
  simp [fetched, contract.link_target h]

theorem Keeps.fetched {l : L} {c : C} (h : contract.Keeps st st')
    (hl : contract.fetched st l = some c) : contract.fetched st' l = some c := by
  rcases Option.bind_eq_some_iff.1 hl with ⟨name, htarget, hc⟩
  simp [StorageContract.fetched, htarget, h name c hc]

/-- Each name, when its turn comes, is free or holds the content already. -/
def Fits (contract : StorageContract save link) : σ → List (N × C) → Prop
  | _, [] => True
  | st, (name, c) :: files =>
      (∀ d, contract.content st name = some d → d = c) ∧ Fits contract (save st name c).1 files

end StorageContract

/-! ## A series of uploads -/

/-- Save each file and get a link to the name asked for, whichever name was chosen. -/
inductive Uploads (save : σ → N → C → σ × Except E N) (link : σ → N → Except E L) :
    σ → List (N × C) → List L → σ → Prop
  | nil (st : σ) : Uploads save link st [] [] st
  | cons {st st₁ st₂ : σ} {name chosen : N} {c : C} {l : L} {files : List (N × C)} {links : List L} :
      save st name c = (st₁, .ok chosen) → link st₁ name = .ok l →
      Uploads save link st₁ files links st₂ →
        Uploads save link st ((name, c) :: files) (l :: links) st₂

namespace Uploads

variable {contract : StorageContract save link} {st st' st'' : σ} {files files' : List (N × C)}
  {links links' : List L}

theorem length_eq (h : Uploads save link st files links st') : links.length = files.length := by
  induction h with
  | nil => rfl
  | cons _ _ _ ih => simp [ih]

/-- Each link was given for the name of its file. -/
theorem forall₂_link (h : Uploads save link st files links st') :
    List.Forall₂ (fun f l => ∃ st₁, link st₁ f.1 = .ok l) files links := by
  induction h with
  | nil => exact List.Forall₂.nil
  | cons _ hlink _ ih => exact List.Forall₂.cons ⟨_, hlink⟩ ih

theorem link_of_mem {l : L} (h : Uploads save link st files links st') (hl : l ∈ links) :
    ∃ st₁ name, link st₁ name = .ok l := by
  induction h with
  | nil => cases hl
  | cons _ hlink _ ih =>
      rcases List.mem_cons.1 hl with rfl | hl
      · exact ⟨_, _, hlink⟩
      · exact ih hl

theorem append (h : Uploads save link st files links st')
    (h' : Uploads save link st' files' links' st'') :
    Uploads save link st (files ++ files') (links ++ links') st'' := by
  induction h with
  | nil => exact h'
  | cons hsave hlink _ ih => exact Uploads.cons hsave hlink (ih h')

theorem keeps (h : Uploads save link st files links st') : contract.Keeps st st' := by
  induction h with
  | nil st => exact StorageContract.Keeps.refl contract st
  | cons hsave _ _ ih => exact (StorageContract.keeps_save hsave).trans ih

/-- The links lead to the uploads exactly if the uploads fit into the store. -/
theorem fetched_iff (h : Uploads save link st files links st') :
    List.Forall₂ (fun f l => contract.fetched st' l = some f.2) files links ↔
      contract.Fits st files := by
  induction h with
  | nil => simp [StorageContract.Fits]
  | @cons st st₁ st₂ name chosen c l files links hsave hlink hrest ih =>
      rw [List.forall₂_cons, ih, StorageContract.Fits, StorageContract.fetched_link hlink, hsave]
      refine and_congr_left' ?_
      cases hname : contract.content st name with
      | none =>
          -- the name is free, so it is the one chosen
          have hchosen := contract.save_free hsave hname
          simp [hrest.keeps chosen c (contract.save_content hsave), ← hchosen]
      | some d =>
          -- another name is chosen, and this one keeps its content
          have hkept : contract.content st₂ name = some d :=
            hrest.keeps name d (StorageContract.keeps_save hsave name d hname)
          simp [hkept]

/-- Uploads to free names fit, if no name is used twice. -/
theorem fits (h : Uploads save link st files links st')
    (hfree : ∀ f ∈ files, contract.content st f.1 = none) (hnodup : (files.map Prod.fst).Nodup) :
    contract.Fits st files := by
  induction h with
  | nil => exact trivial
  | @cons st st₁ st₂ name chosen c l files links hsave hlink hrest ih =>
      rcases List.nodup_cons.1 hnodup with ⟨hnotin, hrestnodup⟩
      have hname : contract.content st name = none := hfree (name, c) (by simp)
      have hchosen : chosen = name := contract.save_free hsave hname
      subst hchosen
      rw [StorageContract.Fits, hsave]
      refine ⟨by simp [hname], ih ?_ hrestnodup⟩
      -- the other names are still free
      intro f hf
      have hne : f.1 ≠ chosen := by
        rintro rfl
        exact hnotin (List.mem_map.2 ⟨f, hf, rfl⟩)
      rw [contract.save_other hsave hne]
      exact hfree f (by simp [hf])

/-- Then every link leads to its own upload, also in every later state. -/
theorem fetched (h : Uploads save link st files links st') (hfits : contract.Fits st files)
    (hkeeps : contract.Keeps st' st'') :
    List.Forall₂ (fun f l => contract.fetched st'' l = some f.2) files links :=
  (h.fetched_iff.2 hfits).imp fun _ _ hl => hkeeps.fetched hl

/-- The same of a last upload after others. -/
theorem fetched_last {f : N × C} {l : L} {st₁ : σ} (h : Uploads save link st files links st₁)
    (hlast : Uploads save link st₁ [f] [l] st') (hfits : contract.Fits st (files ++ [f]))
    (hkeeps : contract.Keeps st' st'') :
    List.Forall₂ (fun f l => contract.fetched st'' l = some f.2) files links ∧
      contract.fetched st'' l = some f.2 := by
  have hall := (h.append hlast).fetched hfits hkeeps
  rw [List.forall₂_iff_zip, List.zip_append h.length_eq.symm] at hall
  refine ⟨List.forall₂_iff_zip.2 ⟨h.length_eq.symm, fun hf => hall.2 (List.mem_append_left _ hf)⟩, ?_⟩
  exact hall.2 (List.mem_append_right _ (by simp))

end Uploads

end Library
end Xqueue
