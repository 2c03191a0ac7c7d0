import IkgtLoader.StartAp.Application
import IkgtLoader.StartAp.LowMemory
import IkgtLoader.StartAp.Completion
import IkgtLoader.StartAp.Stacks
import IkgtLoader.StartAp.Stall
import IkgtLoader.StartAp.Resume
import IkgtLoader.Ld.Confinement
import IkgtLoader.Ld.Correctness
import IkgtLoader.Ld.HeaderFrame
import IkgtLoader.Ld.Sizing
import IkgtLoader.Ld.LinkBase
import IkgtLoader.Ld.RelAgreement
import IkgtLoader.PreOs.HeapDiscipline
import IkgtLoader.PreOs.Layout
import IkgtLoader.PreOs.InitrdCopy
import IkgtLoader.PreOs.HidingOrder
import IkgtLoader.PreOs.HighestRegion
import IkgtLoader.PreOs.MapViews
import IkgtLoader.PreOs.CommandLine
import IkgtLoader.PreOs.GuestLaunch
import IkgtLoader.PreOs.Paging
import IkgtLoader.PreOs.Descriptor
import IkgtLoader.PreOs.Starter
import IkgtLoader.PreOs.Gdt64
import IkgtLoader.PreOs.Sfi
import IkgtLoader.Ld.FileImage
import IkgtLoader.Ld.Status
import IkgtLoader.Ld.SectionLoops
import IkgtLoader.Ld.SectionSpace
