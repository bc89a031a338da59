import SodaPool.Containers
import SodaPool.StdTypes

/-!
# The list of ready channels

`ReadyChannels` is a vector of addresses with their channels, under a reader-writer
lock, and a counter that picks the next entry to hand out. Each function below is
one critical section of the lock. A channel is whatever `connect` returned.
-/

namespace SodaPool

open Containers

structure ReadyChannels (Channel : Type) where
  channels : List (IpAddr × Channel)
  index : UInt64

namespace ReadyChannels

variable {Channel : Type}

def empty : ReadyChannels Channel := ⟨[],0⟩

def find (r : ReadyChannels Channel) (ip : IpAddr) : Option Channel :=
  (r.channels.find? (fun e => decide (e.1 = ip))).map Prod.snd

/-- An empty list does not move the counter, and `fetch_add` wraps around. -/
def getAny (r : ReadyChannels Channel) : Option (IpAddr × Channel) × ReadyChannels Channel :=
  if r.channels.isEmpty then (none,r)
  else (r.channels[r.index.toNat % r.channels.length]?,{ r with index := r.index+1 })

def add (r : ReadyChannels Channel) (ip : IpAddr) (channel : Channel) : ReadyChannels Channel :=
  { r with channels := r.channels ++ [(ip,channel)] }

def remove (r : ReadyChannels Channel) (ip : IpAddr) : ReadyChannels Channel :=
  { r with channels := removeFirst Prod.fst ip r.channels }

def replaceWith (r : ReadyChannels Channel) (new : List (IpAddr × Channel)) :
    ReadyChannels Channel :=
  { r with channels := new }

/-- The addresses in the list, with their repetitions. -/
abbrev ips (r : ReadyChannels Channel) : List IpAddr := keys Prod.fst r.channels

theorem find_mem {r : ReadyChannels Channel} {ip : IpAddr} {channel : Channel}
    (h : r.find ip = some channel) : (ip,channel) ∈ r.channels := by
  obtain ⟨⟨a,c⟩,hfind,rfl⟩ := Option.map_eq_some_iff.mp h
  have ha : a = ip := by simpa using List.find?_some hfind
  subst ha
  exact List.mem_of_find?_eq_some hfind

theorem find_eq_none {r : ReadyChannels Channel} {ip : IpAddr} : r.find ip = none ↔ ip ∉ r.ips := by
  simp only [find,Option.map_eq_none_iff,List.find?_eq_none,decide_eq_true_eq,List.mem_map,
    not_exists,not_and]

/-- The entries of an address that all have one channel. -/
theorem find_eq_some {r : ReadyChannels Channel} {ip : IpAddr} {channel : Channel}
    (hmem : (ip,channel) ∈ r.channels) (hall : ∀ c, (ip,c) ∈ r.channels → c = channel) :
    r.find ip = some channel := by
  cases hfind : r.find ip with
  | none => exact absurd (List.mem_map_of_mem hmem) (find_eq_none.mp hfind)
  | some c => rw [hall c (find_mem hfind)]

@[simp] theorem getAny_channels (r : ReadyChannels Channel) : r.getAny.2.channels = r.channels := by
  rw [getAny]
  split <;> rfl

/-- The counter is taken modulo the length, so a list that is not empty always answers. -/
theorem getAny_eq_none {r : ReadyChannels Channel} : r.getAny.1 = none ↔ r.channels = [] := by
  rw [getAny]
  split
  · rename_i h
    simpa using h
  · rename_i h
    have hne : r.channels ≠ [] := by simpa using h
    have hlt := Nat.mod_lt r.index.toNat (List.length_pos_iff.mpr hne)
    simp [hne,hlt]

theorem getAny_mem {r : ReadyChannels Channel} {e : IpAddr × Channel} (h : r.getAny.1 = some e) :
    e ∈ r.channels := by
  rw [getAny] at h
  split at h
  · cases h
  · exact List.mem_of_getElem? h

end ReadyChannels
end SodaPool
