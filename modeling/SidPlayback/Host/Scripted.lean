/-
  A host whose answers are settings.

  * `ScriptedHost` is its state, and `ScriptedHost.change` makes new settings.
-/
import SidPlayback.Host.Basic

namespace SidPlayback

/-- The state of a scripted host. -/
structure ScriptedHost where
  bufferSize : UInt32
  cursor : Cursor
  nativeRate : Option UInt32

namespace ScriptedHost

/-- A host with the usual settings. -/
def initial : ScriptedHost := ⟨4096, ⟨0, 0⟩, none⟩

/-- New settings; what is left out stays as it is. -/
structure Change where
  bufferSize : Option UInt32 := none
  cursor : Option Cursor := none
  nativeRate : Option (Option UInt32) := none

/-- The host with new settings. -/
def change (h : ScriptedHost) (c : Change) : ScriptedHost where
  bufferSize := c.bufferSize.getD h.bufferSize
  cursor := c.cursor.getD h.cursor
  nativeRate := c.nativeRate.getD h.nativeRate

instance : Host ScriptedHost where
  call _ h := h
  bufferSize h := h.bufferSize
  cursor h := h.cursor
  nativeRate? h := h.nativeRate

end ScriptedHost
end SidPlayback
