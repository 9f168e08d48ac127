import ApuBios.Agesa.BiosHeap.Allocate
import ApuBios.Agesa.BiosHeap.Basic
import ApuBios.Agesa.BiosHeap.Deallocate
import ApuBios.Agesa.BiosHeap.Layout
import ApuBios.Agesa.BiosHeap.Properties
import ApuBios.Arch.Acpi.Tables
import ApuBios.Arch.Acpi.Wakeup
import ApuBios.Arch.Acpigen.NameStrings
import ApuBios.Arch.Acpigen.Nested
import ApuBios.Arch.BootOrder.Properties
import ApuBios.Arch.BootOrder.Basic
import ApuBios.Arch.MpTable.AutomaticIrq
import ApuBios.Arch.MpTable.Properties
import ApuBios.Arch.PirqRouting
import ApuBios.Arch.Smbios.Properties
import ApuBios.Cpu.Agesa.S3Resume
import ApuBios.Cpu.Agesa.SaveMtrr
import ApuBios.Cpu.Lapic.MonotonicTimer
import ApuBios.Cpu.Lapic.Properties
import ApuBios.Cpu.Mtrr.FixedProperties
import ApuBios.Cpu.Mtrr.VarBlocks
import ApuBios.Cpu.Mtrr.VarEffective
import ApuBios.Device.Allocator.Agreement
import ApuBios.Device.Allocator.Aliases
import ApuBios.Device.Allocator.Avoid
import ApuBios.Device.Allocator.Completeness
import ApuBios.Device.Allocator.FixedResources
import ApuBios.Device.Allocator.Largest
import ApuBios.Device.Allocator.Search
import ApuBios.Device.Pci.Bases.Properties
import ApuBios.Device.Pci.BusNumbers.Properties
import ApuBios.Device.Pci.Capability
import ApuBios.Device.Pci.Scan.Properties
import ApuBios.Device.Pci.Swizzle
import ApuBios.Device.ResourceList.Properties
import ApuBios.Drivers.CmosOption.Date
import ApuBios.Drivers.CmosOption.Basic
import ApuBios.Drivers.CmosOption.RoundTrip
import ApuBios.Drivers.Spi.PageProgram
import ApuBios.Drivers.Spi.Sst
import ApuBios.Lib.BootState.Basic
import ApuBios.Lib.BootState.Blockers
import ApuBios.Lib.BootState.Properties
import ApuBios.Lib.Bootmem.Allocation
import ApuBios.Lib.Cbfs.Properties
import ApuBios.Lib.Cbfs.Stage
import ApuBios.Lib.Cbmem.Basic
import ApuBios.Lib.Cbmem.Properties
import ApuBios.Lib.CbmemConsole.Properties
import ApuBios.Lib.CorebootTable.IpChecksum
import ApuBios.Lib.CorebootTable.Properties
import ApuBios.Lib.Lzma.Ulzma
import ApuBios.Lib.Memrange.Basic
import ApuBios.Lib.Memrange.FillHoles
import ApuBios.Lib.Memrange.Properties
import ApuBios.Lib.SelfBoot.Loaded
import ApuBios.Lib.SelfBoot.Order
import ApuBios.Lib.SelfBoot.Parts
import ApuBios.Lib.SelfBoot.Payload
import ApuBios.Lib.SelfBoot.Properties
import ApuBios.Lib.SelfBoot.Tiled
import ApuBios.Libpayload.Ehci.Bulk
import ApuBios.Libpayload.Ehci.Runs
import ApuBios.Libpayload.Libc.Clock
import ApuBios.Libpayload.Libc.IpChecksum
import ApuBios.Libpayload.Libc.Strtok
import ApuBios.Libpayload.Libc.Strtol
import ApuBios.Libpayload.Malloc.Basic
import ApuBios.Libpayload.Malloc.Properties
import ApuBios.Libpayload.Malloc.Gap
import ApuBios.Libpayload.Malloc.Runs
import ApuBios.Libpayload.Malloc.Realloc
import ApuBios.Libpayload.Memalign.Basic
import ApuBios.Libpayload.Memalign.Properties
import ApuBios.Libpayload.Memalign.Regions
import ApuBios.Libpayload.Memalign.Runs
import ApuBios.Libpayload.Ohci.Transfers
import ApuBios.Libpayload.Options.Agreement
import ApuBios.Libpayload.Options.Basic
import ApuBios.Libpayload.Options.StringsRoundTrip
import ApuBios.Libpayload.Storage.Ata
import ApuBios.Libpayload.Sysinfo.Properties
import ApuBios.Libpayload.Uhci.Runs
import ApuBios.Libpayload.Usb.Attach
import ApuBios.Libpayload.Usb.Schedule
import ApuBios.Libpayload.UsbHid.Keybuffer
import ApuBios.Libpayload.UsbHid.Reports
import ApuBios.Libpayload.UsbMsc.Properties
import ApuBios.Libpayload.Video.Cells
import ApuBios.Libpayload.Video.Corebootfb
import ApuBios.Libpayload.Xhci.Enqueue
import ApuBios.Libpayload.Xhci.Events
import ApuBios.Library.IntervalMap
import ApuBios.Library.LinkedList
import ApuBios.Library.Memory
import ApuBios.Library.Tiling
import ApuBios.Library.Transition
import ApuBios.Library.Word
import ApuBios.Northbridge.Family14.Ram
import ApuBios.Payloads.SortBootOrder.Compare
import ApuBios.Payloads.SortBootOrder.Erase
import ApuBios.Payloads.SortBootOrder.Fetch
import ApuBios.Payloads.SortBootOrder.Menu
import ApuBios.Payloads.SortBootOrder.TagValues
import ApuBios.Southbridge.Sb800.Lpc
import ApuBios.Southbridge.Sb800.Spi
