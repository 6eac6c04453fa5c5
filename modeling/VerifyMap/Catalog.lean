import Mathlib.Data.Nat.Defs

/-! The static rule catalog of `verify_map.py`: the DGROUP thresholds of each
build mode and the four symbol and segment lists the rules walk. -/
namespace VerifyMap.Catalog

def dgroupMaxSize : Nat := 0x10000

def dgroupReleaseMax : Nat := 0xE800
def dgroupReleaseWarn : Nat := 0xE000
def dgroupProductionMax : Nat := 0xE000
def dgroupProductionWarn : Nat := 0xD800
def dgroupDebugMax : Nat := 0x10000
def dgroupDebugWarn : Nat := 0xF200

/-- Each group names one resident entry point; one alias must be found in ROOT. -/
def requiredSymbols : List (String × List String) :=
  [("packet_api", ["packet_driver_isr", "_packet_driver_isr", "packet_api_entry"]),
   ("multiplex_api", ["multiplex_handler_", "int2f_handler", "multiplex_handler", "_int2f_isr"]),
   ("pci_shim", ["_pci_shim_isr", "pci_shim_handler", "pci_shim_handler_"]),
   ("nic_irq", ["nic_irq_handler", "_nic_isr", "hardware_handle_3c509b_irq",
      "hardware_handle_3c515_irq"]),
   ("lifecycle", ["install_packet_api_vector", "install_interrupts", "initialize_tsr_defense"])]

def requiredRootSegments : List (String × String) :=
  [("_TEXT", "Main ASM modules (pktapi, nicirq, tsrcom, pciisr)"),
   ("rt_stubs_TEXT", "Consolidated runtime stubs (replaces 15 *_rt modules)")]

def optionalSymbols : List String :=
  ["g_3c509b_ops", "g_3c515_ops", "_3c509b_ops",
   "_3c509b_send_packet_", "_3c509b_receive_packet_",
   "_3c515_send_packet_", "_3c515_receive_packet_",
   "log_info_", "log_error_", "log_warning_", "log_debug_",
   "nic_3c509_handler", "nic_3c515_handler",
   "pcmcia_irq_isr", "pcmcia_isr_install", "pcmcia_isr_uninstall",
   "_set_chain_vector", "chain_to_bios",
   "queue_deferred_work", "deferred_work_queue_process",
   "validate_interrupt_vectors", "safe_port_read"]

def forbiddenInOverlay : List String := ["rt_stubs.obj", "3cvortex.obj", "3cboom.obj"]

end VerifyMap.Catalog
